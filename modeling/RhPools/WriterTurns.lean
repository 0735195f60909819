import Mathlib
import RhPools.GuardedRuns
import RhPools.OrderedTables

/-! Admission of writers to the market store. A caller takes a ticket, waits for its turn
under one condition variable and gives the turn back; live callers pass background ones, up
to a burst that the oldest ticket ends. A step is one stay of a thread in the locked section:
`wait` lets the lock go, so a caller that sleeps is woken in a step of its own. -/

namespace RhPools.WriterTurns
open OrderedTables GuardedRuns

def WRITER_PRIORITIES : List (String × Nat) := [("live", 0), ("normal", 1), ("background", 2)]
def WRITER_MAX_FOREGROUND_BURST : Nat := 8
def WRITER_MAX_FOREGROUND_SECONDS : ℚ := 1

/-- The fields of `MarketStore` that admission reads and writes. -/
structure Writers where
  closed : Bool
  active : Bool
  waiters : OrderedTable Nat Nat
  ticket : Nat
  foregroundStreak : Nat
  foregroundStarted : ℚ
  hold : Option String

def Writers.opened : Writers :=
  { closed := false, active := false, waiters := .empty, ticket := 0, foregroundStreak := 0
    foregroundStarted := 0, hold := none }

/-- The arguments of `_acquire_writer_turn`. -/
structure Ask where
  priority : Option String
  blocking : Bool
  deadline : Option ℚ
  bypassHold : Bool
  deriving DecidableEq

/-- `_writer_rank`, with the priority that the thread set for itself. -/
def writerRank (threadPriority priority : Option String) : Except String Nat :=
  let selected := priority.getD (threadPriority.getD "normal")
  match WRITER_PRIORITIES.find? fun entry => entry.1 = selected with
  | some entry => .ok entry.2
  | none => .error ("writer priority must be one of " ++
      String.intercalate ", " (WRITER_PRIORITIES.map Prod.fst))

def Writers.tickets (writers : Writers) : List Nat := writers.waiters.entries.map Prod.fst

def Writers.oldest (writers : Writers) : Option Nat := writers.tickets.min?

def Writers.nextWriter (writers : Writers) : Option Nat :=
  if writers.waiters.entries = [] then none
  else if WRITER_MAX_FOREGROUND_BURST ≤ writers.foregroundStreak then writers.oldest
  else (writers.waiters.entries.argmin fun entry => toLex (entry.2, entry.1)).map Prod.fst

def Writers.admitted (writers : Writers) (ticket : Nat) (bypassHold : Bool) : Bool :=
  if writers.active then false
  else if writers.hold.isSome then bypassHold
  else writers.nextWriter = some ticket

inductive Verdict where
  | turn
  | refused
  | closed
  | waits
  deriving DecidableEq

/-- One round of the loop in `_acquire_writer_turn`, to the check of the deadline behind it. -/
def Writers.check (writers : Writers) (ticket : Nat) (ask : Ask) (now : ℚ) : Verdict :=
  if writers.closed then .closed
  else if writers.admitted ticket ask.bypassHold then
    if ask.deadline.any (· ≤ now) then .refused else .turn
  else if !ask.blocking then .refused
  else if ask.deadline.any fun deadline => deadline - now ≤ 0 then .refused
  else .waits

def Writers.register (writers : Writers) (rank : Nat) : Writers :=
  { writers with
    ticket := writers.ticket + 1
    waiters := writers.waiters.assign writers.ticket rank }

/-- The `finally` of `_acquire_writer_turn`. -/
def Writers.pop (writers : Writers) (ticket : Nat) : Writers :=
  { writers with waiters := writers.waiters.erase ticket }

/-- The turn is taken; `started` is the clock when a streak begins. -/
def Writers.take (writers : Writers) (ticket : Nat) (started : ℚ) : Writers :=
  if writers.oldest = some ticket then
    { writers with active := true, foregroundStreak := 0 }.pop ticket
  else
    { writers with
      active := true
      foregroundStarted :=
        if writers.foregroundStreak = 0 then started else writers.foregroundStarted
      foregroundStreak := writers.foregroundStreak + 1 }.pop ticket

def Writers.release (writers : Writers) (now : ℚ) : Writers :=
  { writers with
    active := false
    foregroundStreak :=
      if writers.foregroundStreak ≠ 0 ∧
          WRITER_MAX_FOREGROUND_SECONDS ≤ now - writers.foregroundStarted then
        WRITER_MAX_FOREGROUND_BURST
      else writers.foregroundStreak }

/-- What happened to a ticket while it waited: how many older ones waited when it registered,
which younger ones were admitted since, and whether a hold was in force. -/
structure Wait where
  older : Nat
  passedBy : List Nat
  held : Bool
  deriving DecidableEq

/-- The store with its callers: those that sleep in `wait`, those whose turn it is, and the
record of each ticket. -/
structure World where
  writers : Writers
  sleeping : Nat → Option Ask
  holders : List Nat
  waits : Nat → Option Wait

def World.fresh : World :=
  { writers := .opened, sleeping := fun _ => none, holders := [], waits := fun _ => none }

def olderCount (writers : Writers) (ticket : Nat) : Nat :=
  writers.tickets.countP (· < ticket)

def World.note (world : World) (change : Nat → Wait → Wait) : World :=
  { world with
    waits := fun ticket =>
      if ticket ∈ world.writers.tickets then (world.waits ticket).map (change ticket)
      else world.waits ticket }

def passes (admitted ticket : Nat) (wait : Wait) : Wait :=
  if ticket < admitted then { wait with passedBy := wait.passedBy ++ [admitted] } else wait

def World.withdraw (world : World) (ticket : Nat) : World :=
  { world with
    writers := world.writers.pop ticket
    sleeping := Function.update world.sleeping ticket none }

def World.take (world : World) (ticket : Nat) (started : ℚ) : World :=
  let noted := world.note (passes ticket)
  { noted with
    writers := world.writers.take ticket started
    sleeping := Function.update world.sleeping ticket none
    holders := ticket :: world.holders }

def World.settle (world : World) (ticket : Nat) (ask : Ask) (now started : ℚ) : World :=
  match world.writers.check ticket ask now with
  | .turn => world.take ticket started
  | .refused | .closed => world.withdraw ticket
  | .waits => { world with sleeping := Function.update world.sleeping ticket (some ask) }

def World.register (world : World) (rank : Nat) : World :=
  { world with
    writers := world.writers.register rank
    waits := Function.update world.waits world.writers.ticket (some
      { older := olderCount world.writers world.writers.ticket, passedBy := []
        held := world.writers.hold.isSome }) }

def World.hold (world : World) (reason : Option String) : World :=
  let noted := world.note fun _ wait => { wait with held := wait.held || reason.isSome }
  { noted with writers := { world.writers with hold := reason } }

inductive Action where
  | acquire (threadPriority : Option String) (ask : Ask) (now started : ℚ)
  /-- A sleeping caller was notified, its time is over, or it woke by itself. -/
  | wake (ticket : Nat) (now started : ℚ)
  /-- An exception ends the sleep. -/
  | interrupt (ticket : Nat)
  | release (ticket : Nat) (now : ℚ)
  | hold (reason : Option String)
  /-- `close` sets the flag; that it takes a hold off is a step of its own. -/
  | close

def step (world : World) : Action → Option World
  | .acquire threadPriority ask now started =>
    match writerRank threadPriority ask.priority with
    | .error _ => some world
    | .ok rank => some ((world.register rank).settle world.writers.ticket ask now started)
  | .wake ticket now started =>
    (world.sleeping ticket).map fun ask => world.settle ticket ask now started
  | .interrupt ticket => (world.sleeping ticket).map fun _ => world.withdraw ticket
  | .release ticket now =>
    if ticket ∈ world.holders then
      some { world with
        writers := world.writers.release now
        holders := world.holders.erase ticket }
    else none
  | .hold reason => some (world.hold reason)
  | .close => some { world with writers := { world.writers with closed := true } }

def turnRuns : System World Action where
  start world := world = World.fresh
  step := step

/-- What a ticket may still lose to younger ones: a burst for each older ticket that waits, and
what is left of the burst that goes on. -/
def Owed (writers : Writers) (ticket : Nat) (wait : Wait) : Prop :=
  if ticket ∈ writers.tickets then
    wait.passedBy.length + WRITER_MAX_FOREGROUND_BURST * olderCount writers ticket ≤
      WRITER_MAX_FOREGROUND_BURST * wait.older +
        min writers.foregroundStreak WRITER_MAX_FOREGROUND_BURST
  else wait.passedBy.length ≤ WRITER_MAX_FOREGROUND_BURST * (wait.older + 1)

structure Inv (world : World) : Prop where
  numbered : ∀ ticket ∈ world.writers.tickets, ticket < world.writers.ticket
  known : ∀ ticket wait, world.waits ticket = some wait → ticket < world.writers.ticket
  asleep : ∀ ticket ask, world.sleeping ticket = some ask → ticket ∈ world.writers.tickets
  turn : world.holders.length = if world.writers.active then 1 else 0
  seen : world.writers.hold.isSome → ∀ ticket ∈ world.writers.tickets, ∀ wait,
    world.waits ticket = some wait → wait.held
  owed : ∀ ticket wait, world.waits ticket = some wait → wait.held = false →
    Owed world.writers ticket wait

section
variable (writers : Writers) (ticket other : Nat)

theorem mem_pop :
    other ∈ (writers.pop ticket).tickets ↔ other ∈ writers.tickets ∧ other ≠ ticket := by
  simp only [Writers.pop, Writers.tickets, OrderedTable.erase, OrderedTable.keep, List.mem_map,
    List.mem_filter, decide_eq_true_eq]
  constructor
  · rintro ⟨entry, ⟨member, apart⟩, rfl⟩
    exact ⟨⟨entry, member, rfl⟩, by simpa using apart⟩
  · rintro ⟨⟨entry, member, rfl⟩, apart⟩
    exact ⟨entry, ⟨member, by simpa using apart⟩, rfl⟩

theorem tickets_pop (ticket : Nat) :
    (writers.pop ticket).tickets = writers.tickets.erase ticket := by
  have distinct : writers.tickets.Nodup := writers.waiters.distinct
  rw [distinct.erase_eq_filter]
  simp only [Writers.pop, Writers.tickets, OrderedTable.erase, OrderedTable.keep, List.filter_map]
  congr 2
  funext entry
  by_cases same : entry.1 = ticket <;> simp [same]

theorem older_pop :
    olderCount (writers.pop ticket) other ≤ olderCount writers other := by
  rw [olderCount, tickets_pop]
  exact (List.erase_sublist).countP_le

theorem older_pop_older (waits : ticket ∈ writers.tickets) (older : ticket < other) :
    olderCount (writers.pop ticket) other + 1 = olderCount writers other := by
  have positive : 0 < olderCount writers other :=
    List.countP_pos_iff.mpr ⟨ticket, waits, by simpa using older⟩
  rw [olderCount, tickets_pop, List.countP_erase]
  simp only [waits, older, decide_true, and_self, if_true]
  exact Nat.succ_pred_eq_of_pos positive

theorem oldest_le (oldest : writers.oldest = some ticket) (waits : other ∈ writers.tickets) :
    ticket ≤ other := by
  exact (List.min?_eq_some_iff.mp oldest).2 other waits

theorem admitted_next (ticket : Nat) (bypassHold : Bool) (free : writers.hold = none)
    (admitted : writers.admitted ticket bypassHold = true) :
    writers.nextWriter = some ticket := by
  unfold Writers.admitted at admitted
  split at admitted
  · cases admitted
  · simpa [free] using admitted

theorem next_of_burst (ticket : Nat)
    (burst : WRITER_MAX_FOREGROUND_BURST ≤ writers.foregroundStreak)
    (next : writers.nextWriter = some ticket) : writers.oldest = some ticket := by
  unfold Writers.nextWriter at next
  split at next
  · cases next
  · simpa [burst] using next

@[simp] theorem tickets_take (ticket : Nat) (started : ℚ) :
    (writers.take ticket started).tickets = (writers.pop ticket).tickets := by
  unfold Writers.take
  split <;> rfl

@[simp] theorem older_take (started : ℚ) :
    olderCount (writers.take ticket started) other = olderCount (writers.pop ticket) other := by
  rw [olderCount, tickets_take, olderCount]

theorem older_noted (admitted ticket : Nat) (wait : Wait) :
    (passes admitted ticket wait).older = wait.older := by
  unfold passes
  split <;> rfl

theorem owed_take (admitted ticket : Nat) (wait : Wait) (started : ℚ)
    (next : writers.nextWriter = some admitted) (inside : admitted ∈ writers.tickets)
    (waits : ticket ∈ writers.tickets) (owed : Owed writers ticket wait) :
    Owed (writers.take admitted started) ticket (passes admitted ticket wait) := by
  rw [Owed, if_pos waits] at owed
  rw [Owed, tickets_take, older_take, older_noted]
  have room : min writers.foregroundStreak WRITER_MAX_FOREGROUND_BURST ≤
      WRITER_MAX_FOREGROUND_BURST := min_le_right _ _
  by_cases own : ticket = admitted
  · subst own
    rw [if_neg fun stays => ((mem_pop _ _ _).mp stays).2 rfl]
    simp only [passes, lt_irrefl, if_false, Nat.mul_succ]
    omega
  · rw [if_pos ((mem_pop _ _ _).mpr ⟨waits, own⟩)]
    by_cases first : writers.oldest = some admitted
    · -- the oldest ends the streak and leaves one older ticket less
      have older : admitted < ticket :=
        lt_of_le_of_ne (oldest_le writers admitted ticket first waits) fun same => own same.symm
      have fewer := older_pop_older writers admitted ticket inside older
      have streak : (writers.take admitted started).foregroundStreak = 0 := by
        simp [Writers.take, first, Writers.pop]
      have same : passes admitted ticket wait = wait := if_neg (by omega)
      rw [← fewer, Nat.mul_succ] at owed
      rw [streak, same]
      omega
    · -- a passing ticket lengthens a streak that is no burst yet
      have short : writers.foregroundStreak < WRITER_MAX_FOREGROUND_BURST := by
        by_contra burst
        exact first (next_of_burst writers admitted (by omega) next)
      have streak : (writers.take admitted started).foregroundStreak =
          writers.foregroundStreak + 1 := by
        simp [Writers.take, first, Writers.pop]
      have fewer := older_pop writers admitted ticket
      have counted : (passes admitted ticket wait).passedBy.length ≤ wait.passedBy.length + 1 := by
        unfold passes
        split <;> simp
      have scaled := Nat.mul_le_mul_left WRITER_MAX_FOREGROUND_BURST fewer
      rw [streak]
      omega

theorem owed_withdraw (gone ticket : Nat) (wait : Wait) (owed : Owed writers ticket wait) :
    Owed (writers.pop gone) ticket wait := by
  have scaled := Nat.mul_le_mul_left WRITER_MAX_FOREGROUND_BURST (older_pop writers gone ticket)
  have room : min writers.foregroundStreak WRITER_MAX_FOREGROUND_BURST ≤
      WRITER_MAX_FOREGROUND_BURST := min_le_right _ _
  have same : (writers.pop gone).foregroundStreak = writers.foregroundStreak := rfl
  unfold Owed at owed ⊢
  rw [same]
  by_cases waits : ticket ∈ writers.tickets
  · rw [if_pos waits] at owed
    split
    · omega
    · rw [Nat.mul_succ]
      omega
  · rw [if_neg waits] at owed
    rw [if_neg fun stays => waits ((mem_pop _ _ _).mp stays).1]
    exact owed

theorem owed_streak (writers next : Writers) (ticket : Nat) (wait : Wait)
    (same : next.waiters = writers.waiters)
    (longer : min writers.foregroundStreak WRITER_MAX_FOREGROUND_BURST ≤
      min next.foregroundStreak WRITER_MAX_FOREGROUND_BURST)
    (owed : Owed writers ticket wait) : Owed next ticket wait := by
  have tickets : next.tickets = writers.tickets := by rw [Writers.tickets, same, Writers.tickets]
  unfold Owed olderCount at owed ⊢
  rw [tickets]
  by_cases waits : ticket ∈ writers.tickets
  · rw [if_pos waits] at owed ⊢
    omega
  · rw [if_neg waits] at owed ⊢
    exact owed

theorem tickets_register (rank : Nat)
    (numbered : ∀ ticket ∈ writers.tickets, ticket < writers.ticket) :
    (writers.register rank).tickets = writers.tickets ++ [writers.ticket] := by
  have fresh : writers.ticket ∉ writers.waiters.entries.map Prod.fst :=
    fun member => lt_irrefl _ (numbered _ member)
  simp [Writers.register, Writers.tickets, entries_assign _ _ _ fresh]

end

variable {world : World}

variable (ticket : Nat)

theorem withdraw_inv (inv : Inv world) : Inv (world.withdraw ticket) where
  numbered other waits := inv.numbered other ((mem_pop _ _ _).mp waits).1
  known := inv.known
  asleep other ask sleeps := by
    by_cases same : other = ticket
    · subst same
      simp [World.withdraw] at sleeps
    · simp only [World.withdraw, Function.update_of_ne same] at sleeps
      exact (mem_pop _ _ _).mpr ⟨inv.asleep other ask sleeps, same⟩
  turn := inv.turn
  seen held other waits wait recorded :=
    inv.seen held other ((mem_pop _ _ _).mp waits).1 wait recorded
  owed other wait recorded free :=
    owed_withdraw world.writers ticket other wait (inv.owed other wait recorded free)

theorem take_inv (started : ℚ) (bypassHold : Bool) (inv : Inv world)
    (waits : ticket ∈ world.writers.tickets)
    (admitted : world.writers.admitted ticket bypassHold = true) :
    Inv (world.take ticket started) := by
  have writers : (world.take ticket started).writers = world.writers.take ticket started := rfl
  have hold : (world.writers.take ticket started).hold = world.writers.hold := by
    unfold Writers.take
    split <;> rfl
  have number : (world.writers.take ticket started).ticket = world.writers.ticket := by
    unfold Writers.take
    split <;> rfl
  have active : (world.writers.take ticket started).active = true := by
    unfold Writers.take
    split <;> rfl
  have noted : ∀ other wait, (world.take ticket started).waits other = some wait →
      ∃ before, world.waits other = some before ∧
        wait = if other ∈ world.writers.tickets then passes ticket other before else before := by
    intro other wait recorded
    change (if other ∈ world.writers.tickets then _ else _) = _ at recorded
    split at recorded
    · obtain ⟨before, there, rfl⟩ := Option.map_eq_some_iff.mp recorded
      exact ⟨before, there, by rw [if_pos ‹_›]⟩
    · exact ⟨wait, recorded, by rw [if_neg ‹_›]⟩
  have heldSame : ∀ other before, (passes ticket other before).held = before.held := by
    intro other before
    unfold passes
    split <;> rfl
  constructor
  · intro other stays
    rw [writers, tickets_take, mem_pop] at stays
    rw [writers, number]
    exact inv.numbered other stays.1
  · intro other wait recorded
    obtain ⟨before, there, -⟩ := noted other wait recorded
    rw [writers, number]
    exact inv.known other before there
  · intro other ask sleeps
    rw [writers, tickets_take, mem_pop]
    by_cases same : other = ticket
    · subst same
      simp [World.take] at sleeps
    · simp only [World.take, Function.update_of_ne same] at sleeps
      exact ⟨inv.asleep other ask sleeps, same⟩
  · -- the turn was free
    have idle : world.writers.active = false := by
      by_contra busy
      simp [Writers.admitted, busy] at admitted
    have alone := inv.turn
    rw [idle] at alone
    rw [writers, active]
    simpa [World.take] using alone
  · intro held other stays wait recorded
    rw [writers, hold] at held
    rw [writers, tickets_take, mem_pop] at stays
    obtain ⟨before, there, rfl⟩ := noted other wait recorded
    rw [if_pos stays.1, heldSame]
    exact inv.seen held other stays.1 before there
  · intro other wait recorded free
    obtain ⟨before, there, rfl⟩ := noted other wait recorded
    rw [writers]
    by_cases stays : other ∈ world.writers.tickets
    · rw [if_pos stays] at free ⊢
      rw [heldSame] at free
      have open_ : world.writers.hold = none := by
        by_contra held
        have seen := inv.seen (Option.isSome_iff_ne_none.mpr held) other stays before there
        rw [free] at seen
        cases seen
      exact owed_take world.writers ticket other before started
        (admitted_next world.writers ticket bypassHold open_ admitted) waits stays
        (inv.owed other before there free)
    · rw [if_neg stays] at free ⊢
      have owed := inv.owed other before there free
      rw [Owed, if_neg stays] at owed
      rwa [Owed, tickets_take, if_neg fun still => stays ((mem_pop _ _ _).mp still).1]

theorem settle_inv (ask : Ask) (now started : ℚ) (inv : Inv world)
    (waits : ticket ∈ world.writers.tickets) : Inv (world.settle ticket ask now started) := by
  unfold World.settle
  split
  · rename_i verdict
    have admitted : world.writers.admitted ticket ask.bypassHold = true := by
      by_contra refused
      simp only [Writers.check, refused, if_false] at verdict
      split_ifs at verdict
    exact take_inv ticket started ask.bypassHold inv waits admitted
  · exact withdraw_inv ticket inv
  · exact withdraw_inv ticket inv
  · exact
      { numbered := inv.numbered, known := inv.known
        asleep := by
          intro other asked sleeps
          by_cases same : other = ticket
          · exact same ▸ waits
          · simp only [Function.update_of_ne same] at sleeps
            exact inv.asleep other asked sleeps
        turn := inv.turn, seen := inv.seen, owed := inv.owed }

theorem register_inv (rank : Nat) (inv : Inv world) : Inv (world.register rank) := by
  have tickets : (world.register rank).writers.tickets =
      world.writers.tickets ++ [world.writers.ticket] :=
    tickets_register world.writers rank inv.numbered
  have number : (world.register rank).writers.ticket = world.writers.ticket + 1 := rfl
  have older : ∀ other ≤ world.writers.ticket,
      olderCount (world.register rank).writers other = olderCount world.writers other := by
    intro other known
    rw [olderCount, tickets, List.countP_append, olderCount]
    simp [known]
  have streak : (world.register rank).writers.foregroundStreak =
      world.writers.foregroundStreak := rfl
  constructor
  · intro other waits
    rw [tickets, List.mem_append, List.mem_singleton] at waits
    rw [number]
    rcases waits with waits | rfl
    · exact Nat.lt_succ_of_lt (inv.numbered other waits)
    · exact Nat.lt_succ_self _
  · intro other wait recorded
    rw [number]
    by_cases same : other = world.writers.ticket
    · omega
    · simp only [World.register, Function.update_of_ne same] at recorded
      exact Nat.lt_succ_of_lt (inv.known other wait recorded)
  · intro other ask sleeps
    rw [tickets]
    exact List.mem_append_left _ (inv.asleep other ask sleeps)
  · exact inv.turn
  · intro held other waits wait recorded
    by_cases same : other = world.writers.ticket
    · subst same
      simp only [World.register, Function.update_self, Option.some.injEq] at recorded
      rw [← recorded]
      exact held
    · simp only [World.register, Function.update_of_ne same] at recorded
      rw [tickets, List.mem_append, List.mem_singleton] at waits
      exact inv.seen held other (waits.resolve_right same) wait recorded
  · intro other wait recorded free
    by_cases same : other = world.writers.ticket
    · subst same
      simp only [World.register, Function.update_self, Option.some.injEq] at recorded
      have waits : world.writers.ticket ∈ (world.register rank).writers.tickets := by
        simp [tickets]
      rw [Owed, if_pos waits, ← recorded, older _ le_rfl]
      simp
    · simp only [World.register, Function.update_of_ne same] at recorded
      have known := inv.known other wait recorded
      have owed := inv.owed other wait recorded free
      rw [Owed] at owed ⊢
      rw [older other known.le, tickets, streak]
      simpa [same] using owed

theorem hold_inv (reason : Option String) (inv : Inv world) : Inv (world.hold reason) := by
  have noted : ∀ other wait, (world.hold reason).waits other = some wait →
      ∃ before, world.waits other = some before ∧
        wait = if other ∈ world.writers.tickets then
          { before with held := before.held || reason.isSome } else before := by
    intro other wait recorded
    change (if other ∈ world.writers.tickets then _ else _) = _ at recorded
    split at recorded
    · obtain ⟨before, there, rfl⟩ := Option.map_eq_some_iff.mp recorded
      exact ⟨before, there, by rw [if_pos ‹_›]⟩
    · exact ⟨wait, recorded, by rw [if_neg ‹_›]⟩
  constructor
  · exact inv.numbered
  · intro other wait recorded
    obtain ⟨before, there, -⟩ := noted other wait recorded
    exact inv.known other before there
  · exact inv.asleep
  · exact inv.turn
  · intro held other waits wait recorded
    obtain ⟨before, there, rfl⟩ := noted other wait recorded
    have held : reason.isSome := held
    have waits : other ∈ world.writers.tickets := waits
    simp [waits, held]
  · intro other wait recorded free
    obtain ⟨before, there, rfl⟩ := noted other wait recorded
    have owed := inv.owed other before there
    by_cases waits : other ∈ world.writers.tickets
    · rw [if_pos waits] at free ⊢
      exact owed (Bool.or_eq_false_iff.mp free).1
    · rw [if_neg waits] at free ⊢
      exact owed free

theorem release_inv (now : ℚ) (inv : Inv world) (holds : ticket ∈ world.holders) :
    Inv { world with
      writers := world.writers.release now
      holders := world.holders.erase ticket } where
  numbered := inv.numbered
  known := inv.known
  asleep := inv.asleep
  turn := by
    have alone := inv.turn
    have some_ : 0 < world.holders.length := List.length_pos_of_mem holds
    have erased := List.length_erase_of_mem holds
    show (world.holders.erase ticket).length = if (false : Bool) then 1 else 0
    rw [if_neg Bool.false_ne_true]
    split at alone <;> omega
  seen := inv.seen
  owed other wait recorded free := by
    refine owed_streak world.writers (world.writers.release now) other wait rfl ?_
      (inv.owed other wait recorded free)
    by_cases long : world.writers.foregroundStreak ≠ 0 ∧
        WRITER_MAX_FOREGROUND_SECONDS ≤ now - world.writers.foregroundStarted
    · simp [Writers.release, long]
    · simp [Writers.release, long]

theorem step_inv (action : Action) (next : World) (inv : Inv world)
    (taken : step world action = some next) : Inv next := by
  cases action with
  | acquire threadPriority ask now started =>
    simp only [step] at taken
    split at taken
    · cases taken
      exact inv
    · rename_i rank _
      cases taken
      have waits : world.writers.ticket ∈ (world.register rank).writers.tickets := by
        rw [show (world.register rank).writers = world.writers.register rank from rfl,
          tickets_register world.writers rank inv.numbered]
        simp
      exact settle_inv world.writers.ticket ask now started (register_inv rank inv) waits
  | wake ticket now started =>
    obtain ⟨ask, sleeps, rfl⟩ := Option.map_eq_some_iff.mp taken
    exact settle_inv ticket ask now started inv (inv.asleep ticket ask sleeps)
  | interrupt ticket =>
    obtain ⟨ask, sleeps, rfl⟩ := Option.map_eq_some_iff.mp taken
    exact withdraw_inv ticket inv
  | release ticket now =>
    simp only [step] at taken
    split at taken
    · cases taken
      exact release_inv ticket now inv ‹_›
    · cases taken
  | hold reason =>
    cases taken
    exact hold_inv reason inv
  | close =>
    cases taken
    exact { numbered := inv.numbered, known := inv.known, asleep := inv.asleep
            turn := inv.turn, seen := inv.seen, owed := inv.owed }

theorem fresh_inv : Inv World.fresh where
  numbered := by simp [World.fresh, Writers.opened, Writers.tickets, OrderedTable.empty]
  known := by simp [World.fresh]
  asleep := by simp [World.fresh]
  turn := rfl
  seen := by simp [World.fresh, Writers.opened]
  owed := by simp [World.fresh]

/-- One writer at a time; and a ticket that saw no hold while it waited is passed by at most a
burst of younger ones for each older ticket that waited when it came, and one burst more. -/
theorem turns_are_fair (reached : turnRuns.Reaches always world) :
    world.holders.length ≤ 1 ∧
    ∀ ticket wait, world.waits ticket = some wait → wait.held = false →
      wait.passedBy.length ≤ WRITER_MAX_FOREGROUND_BURST * (wait.older + 1) := by
  have inv : Inv world := System.Reaches.invariant Inv
    (fun state (initial : state = World.fresh) => initial ▸ fresh_inv)
    (fun _ action next inv _ taken => step_inv action next inv taken) world reached
  constructor
  · rw [inv.turn]
    split <;> omega
  · intro ticket wait recorded free
    have owed := inv.owed ticket wait recorded free
    rw [Nat.mul_succ]
    unfold Owed at owed
    split at owed
    · omega
    · rwa [Nat.mul_succ] at owed

def passedActions : List Action :=
  [.acquire (some "background") ⟨none, true, none, false⟩ 0 0,
    .acquire (some "background") ⟨none, true, none, false⟩ 0 0,
    .acquire none ⟨some "live", true, some 5, false⟩ 1 1,
    .release 0 2,
    .wake 2 2 2,
    .release 2 3]

theorem passedActions_taken : (turnRuns.run World.fresh passedActions).isSome := by
  decide +kernel

def passedWorld : World := (turnRuns.run World.fresh passedActions).get passedActions_taken

theorem turns_are_fair_passed :
    passedWorld.waits 1 = some ⟨0, [2], false⟩ ∧ passedWorld.holders.length ≤ 1 ∧
      [2].length ≤ WRITER_MAX_FOREGROUND_BURST * (0 + 1) := by
  have reached : turnRuns.Reaches always passedWorld :=
    System.Reaches.run World.fresh passedWorld passedActions (.start _ rfl)
      (System.runMeets_always _ _) (Option.some_get _).symm
  have recorded : passedWorld.waits 1 = some ⟨0, [2], false⟩ := by decide +kernel
  obtain ⟨alone, fair⟩ := turns_are_fair reached
  exact ⟨recorded, alone, fair 1 ⟨0, [2], false⟩ recorded rfl⟩

end RhPools.WriterTurns
