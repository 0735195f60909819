import Mathlib
import RhPools.GuardedRuns
import RhPools.SqlTables

/-! The token bucket of a key in the gate. A call refills the bucket by the time since the last
one, up to the burst, and takes its cost or is refused; buckets stand in a table of bounded size,
and a key whose bucket was dropped starts with a whole burst again. -/

namespace RhPools.KeyBuckets
open OrderedTables GuardedRuns

def MAX_BUCKETS : Nat := 4096

/-- The limits that `Gate.admit` reads. -/
structure Limits where
  keyRps : ℚ
  keyBurst : Nat
  nonneg : 0 ≤ keyRps

abbrev Buckets := OrderedTable String (ℚ × ℚ)

structure Call where
  keyId : String
  cost : Int
  now : ℚ
  deriving DecidableEq

structure Quota where
  limit : Nat
  remaining : Int
  resetAt : ℚ
  deriving DecidableEq

inductive Outcome where
  | admitted (quota : Quota)
  | refused (retryAfter retryAfterMs : Int)
  | zeroDivision
  deriving DecidableEq

variable (limits : Limits)

def tokensAt (buckets : Buckets) (keyId : String) (now : ℚ) : ℚ :=
  let bucket := (buckets.get keyId).getD (limits.keyBurst, now)
  min limits.keyBurst (bucket.1 + (now - bucket.2) * limits.keyRps)

/-- `int((cost - tokens) / key_rps * 1000) + 1`. -/
def waitMs (cost : Int) (tokens : ℚ) : Int := ⌊(cost - tokens) / limits.keyRps * 1000⌋ + 1

def refusal (cost : Int) (tokens : ℚ) : Outcome :=
  if limits.keyRps = 0 then .zeroDivision
  else .refused (max 1 (-(-waitMs limits cost tokens / 1000))) (waitMs limits cost tokens)

def quota (left now : ℚ) : Outcome :=
  if limits.keyRps = 0 then .zeroDivision
  else .admitted ⟨limits.keyBurst, ⌊left⌋, now + (limits.keyBurst - left) / limits.keyRps⟩

def charged (buckets : Buckets) (call : Call) (tokens : ℚ) : Buckets :=
  buckets.put call.keyId (tokens - call.cost, call.now)

/-- `Gate.admit`. -/
def admitCall (buckets : Buckets) (call : Call) : Buckets × Outcome :=
  let tokens := tokensAt limits buckets call.keyId call.now
  if tokens < call.cost then
    (buckets.assign call.keyId (tokens, call.now), refusal limits call.cost tokens)
  else
    ((charged buckets call tokens).trim MAX_BUCKETS, quota limits (tokens - call.cost) call.now)

def evicts (buckets : Buckets) (call : Call) (keyId : String) : Bool :=
  (buckets.get keyId).isSome && ((admitCall limits buckets call).1.get keyId).isNone

structure Event where
  call : Call
  outcome : Outcome
  evicted : String → Bool

def Call.event (call : Call) (buckets : Buckets) : Event :=
  ⟨call, (admitCall limits buckets call).2, evicts limits buckets call⟩

structure World where
  buckets : Buckets
  clock : ℚ
  log : List Event

def bucketRuns : System World Call where
  start world := world.buckets = .empty ∧ world.log = []
  step world call :=
    if world.clock ≤ call.now then
      let next := admitCall limits world.buckets call
      some { buckets := next.1, clock := call.now
             log := world.log ++ [call.event limits world.buckets] }
    else none

def Event.within (event : Event) (start length : ℚ) : Bool :=
  start ≤ event.call.now && event.call.now ≤ start + length

def Event.admittedCost (event : Event) (keyId : String) : Int :=
  match event.outcome with
  | .admitted _ => if event.call.keyId = keyId then event.call.cost else 0
  | _ => 0

def admittedIn (log : List Event) (keyId : String) (start length : ℚ) : Int :=
  ((log.filter (·.within start length)).map (·.admittedCost keyId)).sum

def evictionsIn (log : List Event) (keyId : String) (start length : ℚ) : Nat :=
  (log.filter (·.within start length)).countP (·.evicted keyId)

variable {limits}

section
variable (buckets : Buckets) (call : Call) (keyId : String)

theorem tokens_le_burst (now : ℚ) :
    tokensAt limits buckets keyId now ≤ limits.keyBurst := min_le_left _ _

theorem tokens_later (now later : ℚ) (after : now ≤ later) :
    tokensAt limits buckets keyId later ≤
      tokensAt limits buckets keyId now + (later - now) * limits.keyRps := by
  have refill : 0 ≤ (later - now) * limits.keyRps :=
    mul_nonneg (sub_nonneg.mpr after) limits.nonneg
  unfold tokensAt
  cases buckets.get keyId with
  | none => simpa using refill
  | some bucket =>
    simp only [Option.getD_some]
    rcases min_choice (limits.keyBurst : ℚ) (bucket.1 + (now - bucket.2) * limits.keyRps)
      with full | filling
    · rw [full]
      exact (min_le_left _ _).trans (le_add_of_nonneg_right refill)
    · rw [filling]
      refine (min_le_right _ _).trans (le_of_eq ?_)
      ring

theorem tokens_kept (buckets next : Buckets) (keyId : String) (now : ℚ)
    (kept : next.get keyId = none ∨ next.get keyId = buckets.get keyId) :
    tokensAt limits buckets keyId now ≤ tokensAt limits next keyId now := by
  rcases kept with gone | same
  · refine (tokens_le_burst buckets keyId now).trans ?_
    simp [tokensAt, gone]
  · rw [tokensAt, tokensAt, same]

theorem get_call_other (apart : keyId ≠ call.keyId) :
    (admitCall limits buckets call).1.get keyId = none ∨
      (admitCall limits buckets call).1.get keyId = buckets.get keyId := by
  unfold admitCall
  dsimp only
  split
  · exact .inr (by rw [get_assign, if_neg apart])
  · have same : (charged buckets call (tokensAt limits buckets call.keyId call.now)).get keyId =
        buckets.get keyId := by rw [charged, get_put, if_neg apart]
    rw [← same]
    exact get_trim _ _ _

theorem get_call_same :
    (admitCall limits buckets call).1.get call.keyId =
      some (if tokensAt limits buckets call.keyId call.now < call.cost then
          tokensAt limits buckets call.keyId call.now
        else tokensAt limits buckets call.keyId call.now - call.cost, call.now) := by
  unfold admitCall
  dsimp only
  split
  · rw [get_assign, if_pos rfl]
  · exact get_put_trim _ _ _ _

def Filled (buckets : Buckets) (now : ℚ) : Prop :=
  ∀ keyId bucket, buckets.get keyId = some bucket → 0 ≤ bucket.1 ∧ bucket.2 ≤ now

theorem filled_onward {buckets : Buckets} {now later : ℚ} (filled : Filled buckets now)
    (onward : now ≤ later) : Filled buckets later := fun keyId bucket found =>
  ⟨(filled keyId bucket found).1, (filled keyId bucket found).2.trans onward⟩

theorem tokens_nonneg (now : ℚ) (filled : Filled buckets now) :
    0 ≤ tokensAt limits buckets keyId now := by
  unfold tokensAt
  cases found : buckets.get keyId with
  | none => simp
  | some bucket =>
    obtain ⟨positive, before⟩ := filled keyId bucket found
    have refill := mul_nonneg (sub_nonneg.mpr before) limits.nonneg
    exact le_min (Nat.cast_nonneg _) (add_nonneg positive refill)

theorem filled_call (filled : Filled buckets call.now) :
    Filled (admitCall limits buckets call).1 call.now := by
  intro keyId bucket found
  by_cases own : keyId = call.keyId
  · subst own
    rw [get_call_same, Option.some.injEq] at found
    rw [← found]
    refine ⟨?_, le_rfl⟩
    split
    · exact tokens_nonneg buckets _ _ filled
    · rename_i enough
      exact sub_nonneg.mpr (not_lt.mp enough)
  · rcases @get_call_other limits buckets call keyId own with gone | same
    · rw [gone] at found
      cases found
    · exact filled keyId bucket (same ▸ found)

theorem admittedCost_other (apart : keyId ≠ call.keyId) :
    (call.event limits buckets).admittedCost keyId = 0 := by
  unfold Event.admittedCost
  split
  · exact if_neg fun same => apart same.symm
  · rfl

theorem admittedCost_own (rate : limits.keyRps ≠ 0) :
    (call.event limits buckets).admittedCost call.keyId =
      if tokensAt limits buckets call.keyId call.now < call.cost then 0 else call.cost := by
  unfold Event.admittedCost Call.event admitCall
  dsimp only
  by_cases short : tokensAt limits buckets call.keyId call.now < call.cost
  · simp [short, refusal, rate]
  · simp [short, quota, rate]

theorem tokens_call_own :
    tokensAt limits (admitCall limits buckets call).1 call.keyId call.now =
      min (limits.keyBurst : ℚ) (if tokensAt limits buckets call.keyId call.now < call.cost then
          tokensAt limits buckets call.keyId call.now
        else tokensAt limits buckets call.keyId call.now - call.cost) := by
  rw [tokensAt, get_call_same]
  simp

theorem call_bound (rate : limits.keyRps ≠ 0) (filled : Filled buckets call.now) :
    ((call.event limits buckets).admittedCost keyId : ℚ) +
        tokensAt limits (admitCall limits buckets call).1 keyId call.now ≤
      tokensAt limits buckets keyId call.now +
        if evicts limits buckets call keyId then limits.keyBurst else 0 := by
  have room : (0 : ℚ) ≤ if evicts limits buckets call keyId then limits.keyBurst else 0 := by
    split
    · exact Nat.cast_nonneg _
    · exact le_rfl
  by_cases own : keyId = call.keyId
  · subst own
    refine le_trans ?_ (le_add_of_nonneg_right room)
    rw [admittedCost_own buckets call rate, tokens_call_own]
    by_cases short : tokensAt limits buckets call.keyId call.now < call.cost
    · rw [if_pos short, if_pos short, Int.cast_zero, zero_add]
      exact min_le_right _ _
    · rw [if_neg short, if_neg short]
      have left := min_le_right (limits.keyBurst : ℚ)
        (tokensAt limits buckets call.keyId call.now - call.cost)
      linarith
  · rw [admittedCost_other buckets call keyId own, Int.cast_zero, zero_add]
    rcases @get_call_other limits buckets call keyId own with gone | same
    · cases found : buckets.get keyId with
      | none =>
        rw [tokensAt, tokensAt, gone, found]
        exact le_add_of_nonneg_right room
      | some bucket =>
        have dropped : evicts limits buckets call keyId = true := by simp [evicts, gone, found]
        rw [if_pos dropped]
        exact (tokens_le_burst _ _ _).trans
          (le_add_of_nonneg_left (tokens_nonneg buckets keyId call.now filled))
    · rw [tokensAt, tokensAt, same]
      exact le_add_of_nonneg_right room

end

variable {world : World}

variable (log : List Event)

theorem within_until (now start length : ℚ) (past : ∀ event ∈ log, event.call.now ≤ now)
    (ends : now ≤ start + length) :
    log.filter (·.within start length) = log.filter (·.within start (now - start)) := by
  apply List.filter_congr
  intro event member
  have before := past event member
  have inside : event.call.now ≤ start + length := before.trans ends
  simp [Event.within, inside, before]

theorem within_none (now start length : ℚ) (past : ∀ event ∈ log, event.call.now ≤ now)
    (later : now < start) :
    log.filter (·.within start length) = [] := by
  apply List.filter_eq_nil_iff.mpr
  intro event member
  have before := past event member
  simp [Event.within, not_le.mpr (before.trans_lt later)]

theorem admittedIn_snoc (event : Event) (keyId : String) (start length : ℚ)
    (inside : event.within start length = true) :
    admittedIn (log ++ [event]) keyId start length =
      admittedIn log keyId start length + event.admittedCost keyId := by
  simp [admittedIn, List.filter_append, inside]

theorem evictionsIn_snoc (event : Event) (keyId : String) (start length : ℚ)
    (inside : event.within start length = true) :
    evictionsIn (log ++ [event]) keyId start length =
      evictionsIn log keyId start length + if event.evicted keyId then 1 else 0 := by
  simp [evictionsIn, List.filter_append, inside, List.countP_append, List.countP_singleton]

structure Inv (limits : Limits) (world : World) : Prop where
  filled : Filled world.buckets world.clock
  past : ∀ event ∈ world.log, event.call.now ≤ world.clock
  /-- What was admitted in a window up to now, with what could be admitted now. -/
  spent : ∀ keyId start now, world.clock ≤ now → start ≤ now →
    (admittedIn world.log keyId start (now - start) : ℚ) +
        tokensAt limits world.buckets keyId now ≤
      limits.keyBurst * (1 + evictionsIn world.log keyId start (now - start)) +
        limits.keyRps * (now - start)
  bounded : ∀ keyId start length, 0 ≤ length →
    (admittedIn world.log keyId start length : ℚ) ≤
      limits.keyBurst * (1 + evictionsIn world.log keyId start length) + limits.keyRps * length

theorem past_call (inv : Inv limits world) (call : Call) (onward : world.clock ≤ call.now) :
    ∀ event ∈ world.log ++ [call.event limits world.buckets], event.call.now ≤ call.now := by
  intro event member
  rcases List.mem_append.mp member with old | new
  · exact (inv.past event old).trans onward
  · rw [List.mem_singleton.mp new]
    exact le_rfl

theorem spent_call (inv : Inv limits world) (call : Call) (rate : limits.keyRps ≠ 0)
    (onward : world.clock ≤ call.now) (keyId : String) (start now : ℚ) (after : call.now ≤ now)
    (opened : start ≤ now) :
    (admittedIn (world.log ++ [call.event limits world.buckets]) keyId start (now - start) : ℚ) +
        tokensAt limits (admitCall limits world.buckets call).1 keyId now ≤
      limits.keyBurst * (1 + evictionsIn (world.log ++ [call.event limits world.buckets]) keyId
        start (now - start)) + limits.keyRps * (now - start) := by
  have past := past_call inv call onward
  have refill := mul_nonneg limits.nonneg (sub_nonneg.mpr opened)
  by_cases early : call.now < start
  · -- the window begins after the call
    have empty := within_none _ call.now start (now - start) past early
    rw [admittedIn, evictionsIn, empty]
    have full := @tokens_le_burst limits (admitCall limits world.buckets call).1 keyId now
    simp only [List.map_nil, List.sum_nil, Int.cast_zero, List.countP_nil, Nat.cast_zero]
    linarith
  · have begun : start ≤ call.now := not_lt.mp early
    have ends : call.now ≤ start + (now - start) := by linarith
    have inside : (call.event limits world.buckets).within start (call.now - start) = true := by
      simp [Event.within, Call.event, begun]
    have before := inv.spent keyId start call.now onward begun
    have taken := call_bound world.buckets call keyId rate (filled_onward inv.filled onward)
    have later := @tokens_later limits (admitCall limits world.buckets call).1 keyId
      call.now now after
    rw [admittedIn, evictionsIn, within_until _ call.now start (now - start) past ends,
      ← admittedIn, ← evictionsIn, admittedIn_snoc _ _ _ _ _ inside,
      evictionsIn_snoc _ _ _ _ _ inside]
    have evicted : (call.event limits world.buckets).evicted keyId =
        evicts limits world.buckets call keyId := rfl
    rw [evicted]
    split at taken
    · rename_i dropped
      rw [if_pos dropped]
      push_cast
      linarith
    · rename_i kept
      rw [if_neg kept]
      rw [Nat.cast_zero] at taken
      push_cast
      linarith

theorem call_inv (inv : Inv limits world) (call : Call) (rate : limits.keyRps ≠ 0)
    (onward : world.clock ≤ call.now) :
    Inv limits { buckets := (admitCall limits world.buckets call).1, clock := call.now
                 log := world.log ++ [call.event limits world.buckets] } where
  filled := filled_call world.buckets call (filled_onward inv.filled onward)
  past := past_call inv call onward
  spent keyId start now after opened := spent_call inv call rate onward keyId start now after opened
  bounded keyId start length long := by
    dsimp only
    cases inside : (call.event limits world.buckets).within start length with
    | false =>
      have same : (world.log ++ [call.event limits world.buckets]).filter
          (·.within start length) = world.log.filter (·.within start length) := by
        simp [List.filter_append, inside]
      rw [admittedIn, evictionsIn, same]
      exact inv.bounded keyId start length long
    | true =>
      -- the window is open at the call: nothing of it lies behind the call
      have begun : start ≤ call.now := of_decide_eq_true (Bool.and_eq_true_iff.mp inside).1
      have ends : call.now ≤ start + length := of_decide_eq_true (Bool.and_eq_true_iff.mp inside).2
      have past := past_call inv call onward
      have spent := spent_call inv call rate onward keyId start call.now le_rfl begun
      have left := @tokens_nonneg limits (admitCall limits world.buckets call).1 keyId
        call.now (filled_call world.buckets call (filled_onward inv.filled onward))
      have refill := mul_le_mul_of_nonneg_left (sub_le_iff_le_add'.mpr ends) limits.nonneg
      rw [admittedIn, evictionsIn, within_until _ call.now start length past ends, ← admittedIn,
        ← evictionsIn]
      linarith

theorem start_inv (initial : (bucketRuns limits).start world) : Inv limits world := by
  obtain ⟨buckets, log⟩ := initial
  have none_ : ∀ keyId, world.buckets.get keyId = none := by simp [buckets, OrderedTable.get,
    OrderedTable.empty]
  constructor
  · intro keyId bucket found
    rw [none_] at found
    cases found
  · simp [log]
  · intro keyId start now _ opened
    have full := @tokens_le_burst limits world.buckets keyId now
    have refill := mul_nonneg limits.nonneg (sub_nonneg.mpr opened)
    simp only [log, admittedIn, evictionsIn, List.filter_nil, List.map_nil, List.sum_nil,
      Int.cast_zero, List.countP_nil, Nat.cast_zero]
    linarith
  · intro keyId start length long
    have refill := mul_nonneg limits.nonneg long
    simp only [log, admittedIn, evictionsIn, List.filter_nil, List.map_nil, List.sum_nil,
      Int.cast_zero, List.countP_nil, Nat.cast_zero]
    have burst : (0 : ℚ) ≤ limits.keyBurst := Nat.cast_nonneg _
    linarith

theorem step_some (call : Call) (onward : world.clock ≤ call.now) :
    (bucketRuns limits).step world call = some
      { buckets := (admitCall limits world.buckets call).1, clock := call.now
        log := world.log ++ [call.event limits world.buckets] } := if_pos onward

theorem step_taken (call : Call) (next : World)
    (taken : (bucketRuns limits).step world call = some next) :
    world.clock ≤ call.now ∧ next =
      { buckets := (admitCall limits world.buckets call).1, clock := call.now
        log := world.log ++ [call.event limits world.buckets] } := by
  simp only [bucketRuns] at taken
  split at taken
  · exact ⟨‹_›, (Option.some.inj taken).symm⟩
  · cases taken

theorem reached_inv (rate : limits.keyRps ≠ 0) (reached : (bucketRuns limits).Reaches always world) :
    Inv limits world :=
  System.Reaches.invariant (Inv limits) (fun _ initial => start_inv initial)
    (fun before call next inv _ taken => by
      obtain ⟨onward, rfl⟩ := step_taken call next taken
      exact call_inv inv call rate onward) world reached

theorem nothing_admitted (rate : limits.keyRps = 0)
    (reached : (bucketRuns limits).Reaches always world) :
    ∀ event ∈ world.log, ∀ keyId, event.admittedCost keyId = 0 := by
  refine System.Reaches.invariant
    (fun world => ∀ event ∈ world.log, ∀ keyId, event.admittedCost keyId = 0) ?_ ?_ world reached
  · rintro state ⟨-, log⟩
    simp [log]
  · intro before call next none_ _ taken event member keyId
    obtain ⟨-, rfl⟩ := step_taken call next taken
    rcases List.mem_append.mp member with old | new
    · exact none_ event old keyId
    · rw [List.mem_singleton.mp new]
      unfold Event.admittedCost Call.event admitCall
      dsimp only
      split_ifs <;> simp [refusal, quota, rate]

theorem tokens_after_wait (buckets : Buckets) (call : Call) (rate : limits.keyRps ≠ 0)
    (short : tokensAt limits buckets call.keyId call.now < call.cost)
    (small : call.cost ≤ limits.keyBurst) (now : ℚ)
    (waited : call.now +
      waitMs limits call.cost (tokensAt limits buckets call.keyId call.now) / 1000 ≤ now) :
    (call.cost : ℚ) ≤ tokensAt limits (admitCall limits buckets call).1 call.keyId now := by
  have positive : 0 < limits.keyRps := lt_of_le_of_ne limits.nonneg (Ne.symm rate)
  have floor := Int.lt_floor_add_one
    ((call.cost - tokensAt limits buckets call.keyId call.now) / limits.keyRps * 1000)
  rw [tokensAt, get_call_same, if_pos short]
  simp only [Option.getD_some]
  refine le_min (by exact_mod_cast small) ?_
  have enough : (call.cost - tokensAt limits buckets call.keyId call.now) / limits.keyRps ≤
      now - call.now := by
    rw [waitMs] at waited
    push_cast at waited
    linarith
  have refilled := (div_le_iff₀ positive).mp enough
  linarith

theorem refused_then_admitted (call : Call) (next : World) (retryAfter retryAfterMs : Int)
    (taken : (bucketRuns limits).step world call = some next)
    (refused : (admitCall limits world.buckets call).2 = .refused retryAfter retryAfterMs)
    (small : call.cost ≤ limits.keyBurst) (later : World)
    (onward : ((bucketRuns limits).since next).Reaches
      (fun _ other => other.keyId ≠ call.keyId) later)
    (again : Call) (same : again.keyId = call.keyId) (cost : again.cost = call.cost)
    (waited : call.now + retryAfterMs / 1000 ≤ again.now) :
    ∃ quota, (admitCall limits later.buckets again).2 = .admitted quota := by
  obtain ⟨-, rfl⟩ := step_taken call next taken
  have short : tokensAt limits world.buckets call.keyId call.now < call.cost := by
    by_contra enough
    rw [admitCall, if_neg enough] at refused
    simp only [quota] at refused
    split at refused <;> cases refused
  rw [admitCall, if_pos short] at refused
  have rate : limits.keyRps ≠ 0 := by
    intro zero
    simp [refusal, zero] at refused
  simp only [refusal, if_neg rate, Outcome.refused.injEq] at refused
  rw [← refused.2] at waited
  have enough : (call.cost : ℚ) ≤ tokensAt limits later.buckets call.keyId again.now := by
    refine System.Reaches.invariant (fun later : World =>
      (call.cost : ℚ) ≤ tokensAt limits later.buckets call.keyId again.now) ?_ ?_ later onward
    · rintro state rfl
      exact tokens_after_wait world.buckets call rate short small again.now waited
    · intro before other next enough apart taken
      obtain ⟨-, rfl⟩ := step_taken other next taken
      exact enough.trans (tokens_kept before.buckets (admitCall limits before.buckets other).1
        call.keyId again.now (get_call_other before.buckets other call.keyId (Ne.symm apart)))
  rw [← same, ← cost] at enough
  rw [admitCall, if_neg (not_lt.mpr enough)]
  simp only [quota, if_neg rate]
  exact ⟨_, rfl⟩

/-- In every window a key is admitted at most a burst, what the rate gives in the time, and one
burst more for each time its bucket was dropped; and a refused call is admitted after the wait
it reports. -/
theorem key_rate (reached : (bucketRuns limits).Reaches always world) :
    (∀ keyId start length, 0 ≤ length →
      (admittedIn world.log keyId start length : ℚ) ≤
        limits.keyBurst * (1 + evictionsIn world.log keyId start length) +
          limits.keyRps * length) ∧
    ∀ call next retryAfter retryAfterMs, (bucketRuns limits).step world call = some next →
      (admitCall limits world.buckets call).2 = .refused retryAfter retryAfterMs →
      call.cost ≤ limits.keyBurst → ∀ later, ((bucketRuns limits).since next).Reaches
        (fun _ other => other.keyId ≠ call.keyId) later →
      ∀ again : Call, again.keyId = call.keyId → again.cost = call.cost →
        call.now + retryAfterMs / 1000 ≤ again.now →
        ∃ quota, (admitCall limits later.buckets again).2 = .admitted quota := by
  refine ⟨?_, fun call next retryAfter retryAfterMs taken refused small later onward again =>
    refused_then_admitted call next retryAfter retryAfterMs taken refused small later onward again⟩
  intro keyId start length long
  by_cases rate : limits.keyRps = 0
  · have none_ : admittedIn world.log keyId start length = 0 := by
      refine List.sum_eq_zero fun cost member => ?_
      obtain ⟨event, inside, rfl⟩ := List.mem_map.mp member
      exact nothing_admitted rate reached event (List.mem_filter.mp inside).1 keyId
    rw [none_, rate, Int.cast_zero, zero_mul, add_zero]
    exact mul_nonneg (Nat.cast_nonneg _) (add_nonneg zero_le_one (Nat.cast_nonneg _))
  · exact (reached_inv rate reached).bounded keyId start length long

def DEFAULT_LIMITS : Limits := ⟨10, 40, by norm_num⟩

theorem entries_trim (buckets : Buckets) (limit : Nat) :
    (buckets.trim limit).entries = buckets.entries.drop (buckets.size - limit) := rfl

def otherKey (index : Nat) : String := String.ofList (List.replicate index 'k')

theorem otherKey_injective (left right : Nat) (same : otherKey left = otherKey right) :
    left = right := by
  have lists := congrArg String.toList same
  simpa [otherKey] using congrArg List.length lists

theorem otherKey_ne (index : Nat) : otherKey index ≠ "a" := by
  intro same
  have lists := congrArg String.toList same
  have member : 'a' ∈ (otherKey index).toList := by
    rw [lists]
    decide
  simp [otherKey] at member

def crowd (count : Nat) : List (String × (ℚ × ℚ)) :=
  ("a", (0, 0)) :: (List.range count).map fun index => (otherKey index, (39, 0))

def wholeBurst : Call := ⟨"a", 40, 0⟩

theorem crowded (count : Nat) (few : count ≤ MAX_BUCKETS) :
    ∃ world, (bucketRuns DEFAULT_LIMITS).Reaches always world ∧ world.clock = 0 ∧
      world.buckets.entries = (crowd count).drop (count + 1 - MAX_BUCKETS) ∧
      admittedIn world.log "a" 0 0 = 40 ∧
      ∀ event ∈ world.log, event.call.cost ≤ DEFAULT_LIMITS.keyBurst := by
  obtain ⟨limit, bound⟩ : ∃ limit, MAX_BUCKETS = limit + 1 := ⟨_, rfl⟩
  induction count with
  | zero =>
    let empty : World := ⟨.empty, 0, []⟩
    have tokens : tokensAt DEFAULT_LIMITS empty.buckets "a" 0 = 40 := by
      simp [tokensAt, empty, OrderedTable.empty, OrderedTable.get, DEFAULT_LIMITS]
    have enough : ¬tokensAt DEFAULT_LIMITS empty.buckets wholeBurst.keyId wholeBurst.now <
        wholeBurst.cost := by
      rw [show wholeBurst.keyId = "a" from rfl, show wholeBurst.now = 0 from rfl, tokens]
      norm_num [wholeBurst]
    refine ⟨_, .step empty _ wholeBurst (.start empty ⟨rfl, rfl⟩) trivial
      (step_some wholeBurst le_rfl), rfl, ?_, ?_, ?_⟩
    · have none_ : 0 + 1 - MAX_BUCKETS = 0 := by omega
      rw [none_, admitCall, if_neg enough, show wholeBurst.keyId = "a" from rfl,
        show wholeBurst.now = 0 from rfl, tokens, bound]
      simp [charged, wholeBurst, empty, OrderedTable.trim, OrderedTable.keep,
        OrderedTable.put, OrderedTable.erase, OrderedTable.empty, OrderedTable.size, crowd]
    · have cost := @admittedCost_own DEFAULT_LIMITS empty.buckets wholeBurst
        (by norm_num [DEFAULT_LIMITS])
      rw [if_neg enough] at cost
      have inside : (wholeBurst.event DEFAULT_LIMITS empty.buckets).within 0 0 = true := by
        simp [Event.within, Call.event, wholeBurst]
      rw [admittedIn_snoc _ _ _ _ _ inside, show wholeBurst.keyId = "a" from rfl] at *
      rw [cost]
      rfl
    · intro event member
      rw [List.mem_singleton.mp member]
      exact le_refl _
  | succ count ih =>
    obtain ⟨world, reached, clock, entries, admitted, costs⟩ := ih (by omega)
    have whole : count + 1 - MAX_BUCKETS = 0 := by omega
    rw [whole, List.drop_zero] at entries
    let call : Call := ⟨otherKey count, 1, 0⟩
    have fresh : world.buckets.get (otherKey count) = none := by
      rw [get_none, entries]
      intro entry member same
      rcases List.mem_cons.mp member with rfl | member
      · exact otherKey_ne count same.symm
      · obtain ⟨index, below, rfl⟩ := List.mem_map.mp member
        have equal := otherKey_injective index count same
        exact absurd (List.mem_range.mp below) (by omega)
    have tokens : tokensAt DEFAULT_LIMITS world.buckets (otherKey count) 0 = 40 := by
      simp [tokensAt, fresh, DEFAULT_LIMITS]
    have enough : ¬tokensAt DEFAULT_LIMITS world.buckets call.keyId call.now < call.cost := by
      rw [show call.keyId = otherKey count from rfl, show call.now = 0 from rfl, tokens]
      norm_num [call]
    have charge : (charged world.buckets call 40).entries = crowd (count + 1) := by
      rw [charged, entries_put_new _ _ _ fresh, entries, crowd, crowd, List.range_succ]
      simp only [List.map_append, List.map_singleton, List.cons_append, call]
      norm_num
    refine ⟨_, .step world _ call reached trivial (step_some call (le_of_eq clock)), rfl, ?_, ?_, ?_⟩
    · rw [admitCall, if_neg enough, show call.keyId = otherKey count from rfl,
        show call.now = 0 from rfl, tokens]
      rw [entries_trim, OrderedTable.size, charge]
      simp [crowd]
    · have inside : (call.event DEFAULT_LIMITS world.buckets).within 0 0 = true := by
        simp [Event.within, Call.event, call]
      rw [admittedIn_snoc _ _ _ _ _ inside, admitted,
        admittedCost_other world.buckets call "a" (otherKey_ne count).symm, add_zero]
    · intro event member
      rcases List.mem_append.mp member with old | new
      · exact costs event old
      · rw [List.mem_singleton.mp new]
        norm_num [Call.event, call, DEFAULT_LIMITS]

/-- Two whole bursts of one key at one time, with a call of each of as many other keys as the
table has room for in between. -/
theorem burst_twice :
    ¬ ∀ (limits : Limits) (world : World), (bucketRuns limits).Reaches always world →
      (∀ event ∈ world.log, event.call.cost ≤ limits.keyBurst) →
      ∀ keyId start length, 0 ≤ length →
        (admittedIn world.log keyId start length : ℚ) ≤ limits.keyBurst + limits.keyRps * length := by
  intro bounded
  obtain ⟨world, reached, clock, entries, admitted, costs⟩ := crowded MAX_BUCKETS le_rfl
  have dropped : world.buckets.get "a" = none := by
    rw [get_none, entries, show MAX_BUCKETS + 1 - MAX_BUCKETS = 1 by omega]
    intro entry member same
    obtain ⟨index, -, rfl⟩ := List.mem_map.mp member
    exact otherKey_ne index same
  have tokens : tokensAt DEFAULT_LIMITS world.buckets "a" 0 = 40 := by
    simp [tokensAt, dropped, DEFAULT_LIMITS]
  have enough : ¬tokensAt DEFAULT_LIMITS world.buckets wholeBurst.keyId wholeBurst.now <
      wholeBurst.cost := by
    rw [show wholeBurst.keyId = "a" from rfl, show wholeBurst.now = 0 from rfl, tokens]
    norm_num [wholeBurst]
  have cost : (wholeBurst.event DEFAULT_LIMITS world.buckets).admittedCost "a" = 40 := by
    have own := @admittedCost_own DEFAULT_LIMITS world.buckets wholeBurst
      (by norm_num [DEFAULT_LIMITS])
    rw [if_neg enough] at own
    exact own
  have inside : (wholeBurst.event DEFAULT_LIMITS world.buckets).within 0 0 = true := by
    simp [Event.within, Call.event, wholeBurst]
  have exceeded := bounded DEFAULT_LIMITS _
    (.step world _ wholeBurst reached trivial (step_some wholeBurst (le_of_eq clock)))
    (by
      intro event member
      rcases List.mem_append.mp member with old | new
      · exact costs event old
      · rw [List.mem_singleton.mp new]
        exact le_refl _) "a" 0 0 le_rfl
  rw [admittedIn_snoc _ _ _ _ _ inside, admitted, cost] at exceeded
  norm_num [DEFAULT_LIMITS] at exceeded

def threeCalls : List Call := [⟨"a", 30, 0⟩, ⟨"a", 10, 1⟩, ⟨"a", 40, 2⟩]

theorem threeCalls_taken :
    ((bucketRuns DEFAULT_LIMITS).run ⟨.empty, 0, []⟩ threeCalls).isSome := by
  decide

def threeWorld : World :=
  ((bucketRuns DEFAULT_LIMITS).run ⟨.empty, 0, []⟩ threeCalls).get threeCalls_taken

theorem key_rate_sample :
    admittedIn threeWorld.log "a" 0 2 = 40 ∧
      (admittedIn threeWorld.log "a" 0 2 : ℚ) ≤
        DEFAULT_LIMITS.keyBurst * (1 + evictionsIn threeWorld.log "a" 0 2) +
          DEFAULT_LIMITS.keyRps * 2 ∧
      (admitCall DEFAULT_LIMITS threeWorld.buckets ⟨"a", 35, 2⟩).2 = .refused 2 1501 ∧
      ∃ quota, (admitCall DEFAULT_LIMITS (admitCall DEFAULT_LIMITS threeWorld.buckets
        ⟨"a", 35, 2⟩).1 ⟨"a", 35, 4⟩).2 = .admitted quota := by
  have reached : (bucketRuns DEFAULT_LIMITS).Reaches always threeWorld :=
    System.Reaches.run _ threeWorld threeCalls (.start _ ⟨rfl, rfl⟩) (System.runMeets_always _ _)
      (Option.some_get _).symm
  obtain ⟨bounded, waits⟩ := key_rate reached
  have clock : threeWorld.clock ≤ 2 := by decide +kernel
  have refused : (admitCall DEFAULT_LIMITS threeWorld.buckets ⟨"a", 35, 2⟩).2 =
      .refused 2 1501 := by decide +kernel
  refine ⟨by decide +kernel, bounded "a" 0 2 (by norm_num), refused, ?_⟩
  exact waits ⟨"a", 35, 2⟩ _ 2 1501 (step_some ⟨"a", 35, 2⟩ clock) refused
    (by norm_num [DEFAULT_LIMITS]) _ (.start _ rfl) ⟨"a", 35, 4⟩ rfl rfl (by norm_num)

end RhPools.KeyBuckets
