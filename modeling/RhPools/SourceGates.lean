import Mathlib.Tactic.Linarith
import RhPools.GuardedRuns
import RhPools.PacingClocks

/-! The gate in front of one endpoint: a count of slots, a pacing clock that every request is
charged to, and the priority lanes that may run ahead of it. Callers come and go in any order;
each turn of the loop in `acquire` is taken under the lock, at a time the clock shows. -/

namespace RhPools.SourceGates
open GuardedRuns PacingClocks

def maxSourceConcurrency : Int := 4

def localSourceConcurrency : Int := 16

def priorityDebtSeconds : ℚ := 15

def backgroundMaxYieldSeconds : ℚ := 3

structure SourceGate where
  concurrency : Int := maxSourceConcurrency
  inFlight : Int := 0
  nextAt : ℚ := 0
  priorityNextAt : ℚ := 0
  priorityWaiting : Int := 0
  deriving DecidableEq

/-- `_source_concurrency`. -/
def sourceConcurrency (isLocal : Bool) : Int :=
  if isLocal then localSourceConcurrency else maxSourceConcurrency

/-- The arguments of `acquire`, and a name for the call. -/
structure Request where
  id : Nat
  priority : Bool
  interval : ℚ≥0
  cost : Nat
  deriving DecidableEq

def Request.spend (request : Request) : ℚ := request.interval * request.cost

/-- A call of `acquire` and when it started. -/
structure Caller where
  request : Request
  started : ℚ
  deriving DecidableEq

def Caller.aged (caller : Caller) (now : ℚ) : Bool :=
  !caller.request.priority && decide (backgroundMaxYieldSeconds ≤ now - caller.started)

inductive Turn where
  | granted (gate : SourceGate)
  | waits (timeout : Option ℚ)

namespace SourceGate

variable (gate : SourceGate)

def shared : Int := max 1 (gate.concurrency - 1)

def free (caller : Caller) (now : ℚ) : Bool :=
  if caller.request.priority || caller.aged now then
    decide (gate.inFlight < if caller.request.priority then gate.concurrency else gate.shared)
  else decide (gate.inFlight < gate.shared) && decide (gate.priorityWaiting = 0)

def delay (caller : Caller) (now : ℚ) : ℚ :=
  if caller.request.priority || caller.aged now then
    max (gate.priorityNextAt - now) (gate.nextAt - now - priorityDebtSeconds)
  else gate.nextAt - now

def grant (caller : Caller) (now : ℚ) : SourceGate :=
  { gate with
    inFlight := gate.inFlight + 1
    priorityNextAt :=
      if caller.request.priority || caller.aged now then now + caller.request.spend
      else gate.priorityNextAt
    nextAt := charge gate.nextAt now caller.request.spend }

def timeout (caller : Caller) (now : ℚ) : Option ℚ :=
  let limit := if gate.free caller now then some (gate.delay caller now) else none
  if !caller.request.priority && !caller.aged now then
    let untilAged := caller.started + backgroundMaxYieldSeconds - now
    some (limit.elim untilAged fun limit => min limit untilAged)
  else limit

/-- One turn of the loop in `acquire`. -/
def turn (caller : Caller) (now : ℚ) : Turn :=
  if gate.free caller now && decide (gate.delay caller now ≤ 0) then
    .granted (gate.grant caller now)
  else .waits (gate.timeout caller now)

def left (caller : Caller) : SourceGate :=
  if caller.request.priority then { gate with priorityWaiting := gate.priorityWaiting - 1 }
  else gate

end SourceGate

/-- The gate, the time last read, the callers before the lock, in the loop and past it, and
what was granted. -/
structure Traffic where
  gate : SourceGate
  clock : ℚ
  arriving : List Caller
  waiting : List Caller
  holding : List Caller
  grants : List (Grant ℚ)
  deriving DecidableEq

def Traffic.fresh (concurrency : Int) (clock : ℚ) : Traffic :=
  ⟨{ concurrency := concurrency }, clock, [], [], [], []⟩

inductive Action where
  | call (request : Request) (now : ℚ)
  | enter (caller : Caller)
  | turn (caller : Caller) (now : ℚ)
  | interrupt (caller : Caller)
  | release (caller : Caller)
  deriving DecidableEq

def take (traffic : Traffic) (caller : Caller) (now : ℚ) : Traffic :=
  match traffic.gate.turn caller now with
  | .granted gate =>
    { gate := gate.left caller
      clock := now
      arriving := traffic.arriving
      waiting := traffic.waiting.erase caller
      holding := caller :: traffic.holding
      grants := ⟨now, caller.request.spend⟩ :: traffic.grants }
  | .waits _ => { traffic with clock := now }

def step (traffic : Traffic) : Action → Option Traffic
  | .call request now =>
    if traffic.clock ≤ now then
      some { traffic with clock := now, arriving := ⟨request, now⟩ :: traffic.arriving }
    else none
  | .enter caller =>
    if caller ∈ traffic.arriving then
      some { traffic with
        gate :=
          if caller.request.priority then
            { traffic.gate with priorityWaiting := traffic.gate.priorityWaiting + 1 }
          else traffic.gate
        arriving := traffic.arriving.erase caller
        waiting := caller :: traffic.waiting }
    else none
  | .turn caller now =>
    if caller ∈ traffic.waiting ∧ traffic.clock ≤ now then some (take traffic caller now)
    else none
  | .interrupt caller =>
    if caller ∈ traffic.waiting then
      some { traffic with
        gate := traffic.gate.left caller
        waiting := traffic.waiting.erase caller }
    else none
  | .release caller =>
    if caller ∈ traffic.holding then
      some { traffic with
        gate := { traffic.gate with inFlight := traffic.gate.inFlight - 1 }
        holding := traffic.holding.erase caller }
    else none

def endpoint (concurrency : Int) : System Traffic Action where
  start traffic := ∃ clock, traffic = Traffic.fresh concurrency clock
  step := step

def SpendsAtMost (most : ℚ≥0) (_ : Traffic) : Action → Prop
  | .call request _ => request.spend ≤ most
  | _ => True

instance (most : ℚ≥0) (traffic : Traffic) : (action : Action) →
    Decidable (SpendsAtMost most traffic action)
  | .call request _ => inferInstanceAs (Decidable (request.spend ≤ most))
  | .enter _ | .turn _ _ | .interrupt _ | .release _ => .isTrue trivial

variable (gate : SourceGate) (caller : Caller) (now : ℚ)

theorem spend_nonneg (request : Request) : 0 ≤ request.spend :=
  mul_nonneg request.interval.2 (Nat.cast_nonneg _)

theorem turn_granted {after : SourceGate} (granted : gate.turn caller now = .granted after) :
    gate.free caller now = true ∧ gate.delay caller now ≤ 0 ∧ after = gate.grant caller now := by
  unfold SourceGate.turn at granted
  split at granted
  · rename_i ready
    rw [Bool.and_eq_true, decide_eq_true_eq] at ready
    cases granted
    exact ⟨ready.1, ready.2, rfl⟩
  · cases granted

theorem delay_paced (due : gate.delay caller now ≤ 0) :
    gate.nextAt ≤ now + priorityDebtSeconds := by
  unfold SourceGate.delay at due
  split at due
  · have borrowed := le_trans (le_max_right _ _) due
    linarith
  · have debt : (0 : ℚ) ≤ priorityDebtSeconds := by
      rw [priorityDebtSeconds]
      norm_num
    linarith

theorem free_slot (free : gate.free caller now = true) :
    gate.inFlight < if caller.request.priority then gate.concurrency else gate.shared := by
  unfold SourceGate.free at free
  split at free
  · exact of_decide_eq_true free
  · rename_i plain
    rw [Bool.or_eq_true, not_or] at plain
    rw [if_neg plain.1]
    rw [Bool.and_eq_true] at free
    exact of_decide_eq_true free.1

theorem free_aged (free : gate.free caller now = true) (background : caller.request.priority = false)
    (counted : gate.priorityWaiting ≠ 0) :
    backgroundMaxYieldSeconds ≤ now - caller.started := by
  unfold SourceGate.free at free
  split at free
  · rename_i allowed
    rw [background, Bool.false_or, Caller.aged, background, Bool.not_false, Bool.true_and] at allowed
    exact of_decide_eq_true allowed
  · rw [Bool.and_eq_true] at free
    exact absurd (of_decide_eq_true free.2) counted

structure Accounted (concurrency : Int) (most : ℚ≥0) (traffic : Traffic) : Prop where
  slots : traffic.gate.concurrency = concurrency
  inFlight : traffic.gate.inFlight = traffic.holding.length
  counted : traffic.gate.priorityWaiting =
    traffic.waiting.countP fun caller => caller.request.priority
  modest : ∀ caller ∈ traffic.arriving ++ traffic.waiting, caller.request.spend ≤ most
  covers : Covers traffic.gate.nextAt traffic.grants
  bounded : Bounded priorityDebtSeconds (most : ℚ) traffic.grants
  fits : 0 < concurrency → (traffic.holding.length : Int) ≤ concurrency
  spares : 1 < concurrency →
    ((traffic.holding.countP fun caller => !caller.request.priority : ℕ) : Int) < concurrency

variable {concurrency : Int} {most : ℚ≥0} {traffic : Traffic}

theorem fresh_accounted (clock : ℚ) :
    Accounted concurrency most (Traffic.fresh concurrency clock) where
  slots := rfl
  inFlight := rfl
  counted := rfl
  modest := by
    intro caller member
    cases member
  covers := Covers.nil _
  bounded := Bounded.nil _ _ (by norm_num [priorityDebtSeconds]) most.2
  fits positive := le_of_lt positive
  spares several := lt_trans Int.zero_lt_one several

theorem left_counted (member : caller ∈ traffic.waiting)
    (counted : gate.priorityWaiting =
      traffic.waiting.countP fun caller => caller.request.priority) :
    (gate.left caller).priorityWaiting =
      (traffic.waiting.erase caller).countP fun caller => caller.request.priority := by
  have whole := (List.perm_cons_erase member).countP_eq fun caller => caller.request.priority
  rw [List.countP_cons] at whole
  unfold SourceGate.left
  split
  · rename_i priority
    rw [if_pos priority] at whole
    simp only
    omega
  · rename_i background
    rw [if_neg background] at whole
    omega

theorem Accounted.take (accounted : Accounted concurrency most traffic)
    (member : caller ∈ traffic.waiting) : Accounted concurrency most (take traffic caller now) := by
  unfold SourceGates.take
  split
  · rename_i after granted
    obtain ⟨free, due, rfl⟩ := turn_granted traffic.gate caller now granted
    have room := free_slot traffic.gate caller now free
    have small := accounted.modest caller (List.mem_append_right _ member)
    have frame (gate : SourceGate) : (gate.left caller).concurrency = gate.concurrency ∧
        (gate.left caller).inFlight = gate.inFlight ∧
        (gate.left caller).nextAt = gate.nextAt := by
      unfold SourceGate.left
      split <;> exact ⟨rfl, rfl, rfl⟩
    obtain ⟨slots, inFlight, nextAt⟩ := frame (traffic.gate.grant caller now)
    exact {
      slots := slots.trans accounted.slots
      inFlight := by
        rw [inFlight, List.length_cons, Nat.cast_add, ← accounted.inFlight]
        rfl
      counted := left_counted _ caller member accounted.counted
      modest := by
        intro other there
        apply accounted.modest other
        rcases List.mem_append.mp there with before | within
        · exact List.mem_append_left _ before
        · exact List.mem_append_right _ (List.mem_of_mem_erase within)
      covers := by
        rw [nextAt]
        exact accounted.covers.charge ⟨now, caller.request.spend⟩ (spend_nonneg _)
      bounded := accounted.bounded.charge ⟨now, caller.request.spend⟩ accounted.covers
        (by norm_num [priorityDebtSeconds]) (delay_paced traffic.gate caller now due) small
      fits := by
        intro positive
        have below := accounted.slots
        have held := accounted.inFlight
        rw [List.length_cons]
        split at room
        · omega
        · unfold SourceGate.shared at room
          omega
      spares := by
        intro several
        have before := accounted.spares several
        have below := accounted.slots
        have held := accounted.inFlight
        rw [List.countP_cons]
        split at room
        · rename_i priority
          rw [priority]
          exact before
        · have most := List.countP_le_length
            (p := fun caller : Caller => !caller.request.priority) (l := traffic.holding)
          unfold SourceGate.shared at room
          split <;> omega }
  · exact { accounted with }

theorem Accounted.step (accounted : Accounted concurrency most traffic) (action : Action)
    (next : Traffic) (spends : SpendsAtMost most traffic action)
    (taken : step traffic action = some next) : Accounted concurrency most next := by
  cases action with
  | call request now =>
    simp only [SourceGates.step] at taken
    split at taken
    · cases taken
      exact { accounted with
        modest := by
          intro caller member
          rcases List.mem_cons.mp member with rfl | member
          · exact spends
          · exact accounted.modest caller member }
    · cases taken
  | enter caller =>
    simp only [SourceGates.step] at taken
    split at taken
    · rename_i member
      cases taken
      have modest : ∀ other ∈ traffic.arriving.erase caller ++ caller :: traffic.waiting,
          other.request.spend ≤ most := by
        intro other there
        apply accounted.modest other
        rcases List.mem_append.mp there with before | within
        · exact List.mem_append_left _ (List.mem_of_mem_erase before)
        · rcases List.mem_cons.mp within with rfl | within
          · exact List.mem_append_left _ member
          · exact List.mem_append_right _ within
      have counted := accounted.counted
      split
      · rename_i priority
        exact { accounted with
          modest := modest
          counted := by
            rw [List.countP_cons, if_pos priority]
            simp only
            omega }
      · rename_i background
        exact { accounted with
          modest := modest
          counted := by
            rw [List.countP_cons, if_neg background]
            exact counted }
    · cases taken
  | turn caller now =>
    simp only [SourceGates.step] at taken
    split at taken
    · rename_i allowed
      cases taken
      exact accounted.take caller now allowed.1
    · cases taken
  | interrupt caller =>
    simp only [SourceGates.step] at taken
    split at taken
    · rename_i member
      cases taken
      have counted := left_counted traffic.gate caller member accounted.counted
      have modest : ∀ other ∈ traffic.arriving ++ traffic.waiting.erase caller,
          other.request.spend ≤ most := by
        intro other there
        apply accounted.modest other
        rcases List.mem_append.mp there with before | within
        · exact List.mem_append_left _ before
        · exact List.mem_append_right _ (List.mem_of_mem_erase within)
      unfold SourceGate.left at counted ⊢
      split at counted
      · rename_i priority
        simp only [priority, if_true]
        exact { accounted with counted := counted, modest := modest }
      · rename_i background
        simp only [background]
        exact { accounted with counted := counted, modest := modest }
    · cases taken
  | release caller =>
    simp only [SourceGates.step] at taken
    split at taken
    · rename_i member
      cases taken
      have shorter := (List.perm_cons_erase member).length_eq
      have fewer := (List.erase_sublist (l := traffic.holding) (a := caller)).countP_le
        (p := fun caller => !caller.request.priority)
      have held := accounted.inFlight
      rw [List.length_cons] at shorter
      exact { accounted with
        inFlight := by
          simp only
          omega
        fits := by
          intro positive
          have before := accounted.fits positive
          simp only
          omega
        spares := by
          intro several
          have before := accounted.spares several
          simp only
          omega }
    · cases taken

theorem reached_accounted
    (reached : (endpoint concurrency).Reaches (SpendsAtMost most) traffic) :
    Accounted concurrency most traffic := by
  refine reached.invariant (Accounted concurrency most) ?_ ?_
  · rintro start ⟨clock, rfl⟩
    exact fresh_accounted clock
  · intro traffic action next accounted spends taken
    exact accounted.step action next spends taken

/-- Whatever the order of calls, grants and releases, no window of time is granted more than its
length, the debt of the priority lanes and one spend; no more callers are past the gate than it
has slots, the last of several is left by background callers, and none of these goes before a
waiting priority caller without having yielded. -/
theorem pacing_bounded (concurrency : Int) (most : ℚ≥0) (traffic : Traffic)
    (reached : (endpoint concurrency).Reaches (SpendsAtMost most) traffic) :
    (∀ first last, first ≤ last →
      spent traffic.grants first last ≤ last - first + priorityDebtSeconds + most) ∧
    (0 < concurrency → traffic.gate.inFlight ≤ concurrency) ∧
    (1 < concurrency →
      (traffic.holding.countP fun caller => !caller.request.priority : ℕ) < concurrency ∧
      ∀ caller ∈ traffic.waiting, caller.request.priority = false →
        ∀ now after, traffic.gate.turn caller now = .granted after →
          after.inFlight < concurrency) ∧
    ∀ caller ∈ traffic.waiting, caller.request.priority = false →
      (∃ other ∈ traffic.waiting, other.request.priority = true) →
        ∀ now after, traffic.gate.turn caller now = .granted after →
          backgroundMaxYieldSeconds ≤ now - caller.started := by
  have accounted := reached_accounted reached
  refine ⟨accounted.bounded, ?_, fun several => ⟨accounted.spares several, ?_⟩, ?_⟩
  · intro positive
    rw [accounted.inFlight]
    exact accounted.fits positive
  · intro caller _ background now after granted
    obtain ⟨free, -, rfl⟩ := turn_granted traffic.gate caller now granted
    have room := free_slot traffic.gate caller now free
    have slots := accounted.slots
    rw [background, if_neg Bool.false_ne_true] at room
    unfold SourceGate.shared at room
    simp only [SourceGate.grant]
    omega
  · intro caller _ background ahead now after granted
    obtain ⟨free, -, -⟩ := turn_granted traffic.gate caller now granted
    apply free_aged traffic.gate caller now free background
    have several : 0 < traffic.waiting.countP fun caller => caller.request.priority := by
      rw [List.countP_pos_iff]
      exact ahead
    rw [accounted.counted]
    omega

/-! A background batch takes the shared clock, and a head batch borrows from it. -/

def sampleBackground : Caller := ⟨⟨1, false, 1 / 4, 100⟩, 100⟩

def sampleHead : Caller := ⟨⟨2, true, 1 / 4, 100⟩, 110⟩

def sampleActions : List Action :=
  [.call sampleBackground.request 100, .enter sampleBackground, .turn sampleBackground 100,
    .call sampleHead.request 110, .enter sampleHead, .turn sampleHead 110]

def sampleTraffic : Traffic where
  gate := { concurrency := 4, inFlight := 2, nextAt := 150, priorityNextAt := 135 }
  clock := 110
  arriving := []
  waiting := []
  holding := [sampleHead, sampleBackground]
  grants := [⟨110, 25⟩, ⟨100, 25⟩]

theorem pacing_bounded_sample :
    spent sampleTraffic.grants 100 110 ≤ 110 - 100 + priorityDebtSeconds + (25 : ℚ≥0) :=
  (pacing_bounded 4 25 sampleTraffic
    (.run (Traffic.fresh 4 100) sampleTraffic sampleActions (.start _ ⟨100, rfl⟩)
      (by decide +kernel) (by decide +kernel))).1 100 110 (by decide)

end RhPools.SourceGates
