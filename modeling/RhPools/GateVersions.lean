import RhPools.LpGate
import RhPools.GuardedRuns

/-! Policy versions of the holder gate under any number of threads of one process. The
policy is read, checked, inserted and published in separate steps; the insert and the
publication hold the lock of the gate. -/

namespace RhPools.GateVersions
open TxChain LpGate GuardedRuns

inductive Answer where
  | policy (policy : GatePolicy)
  | applied (applied : Applied)
  | failed

/-- Where a thread is in `policy` or `apply_policy`, with the clock it has read; a read of
the policy may be part of a call of `apply_policy`. -/
inductive Thread where
  | idle
  | applying (now : ℚ) (request : Request)
  | reading (readAt : ℚ) (within : Option (ℚ × Request))
  | looking (now : ℚ) (request : Request) (current : GatePolicy)
  | inserting (now : ℚ) (request : Request)
  | publishing (now : ℚ) (request : Request)
  | done (answer : Answer)

/-- The state of the gate; `accepted` and `returned` record the versions of the rows
committed and of the policies returned by `policy`, in order. -/
structure World where
  clock : ℚ
  policies : Policies
  lock : Option Nat
  threads : Nat → Thread
  accepted : List Nat
  returned : List Nat

def World.put (world : World) (thread : Nat) (state : Thread) : World :=
  { world with threads := Function.update world.threads thread state }

/-- The locked section of `policy`. -/
def World.read (world : World) (thread : Nat) (now : ℚ) (within : Option (ℚ × Request)) : World :=
  let policies := world.policies.read now
  { world with
    policies := policies
    returned := world.returned ++ [policies.inForce.version] }.put thread
      (match within with
      | none => .done (.policy policies.inForce)
      | some (now, request) => .looking now request policies.inForce)

def World.look (world : World) (thread : Nat) (now : ℚ) (request : Request)
    (current : GatePolicy) : World :=
  world.put thread (match answer world.policies current request now with
    | some applied => .done (.applied applied)
    | none => .inserting now request)

def World.insert (world : World) (thread : Nat) (now : ℚ) (request : Request) : World :=
  if world.policies.holds request.policy.version then
    world.put thread (.done (.applied .integrity))
  else
    { world with
      policies := world.policies.insert ⟨request.policy, request.signature⟩
      lock := some thread
      accepted := world.accepted ++ [request.policy.version] }.put thread
        (.publishing now request)

def World.publish (world : World) (thread : Nat) (now : ℚ) (request : Request) : World :=
  { world with policies := world.policies.enforce request.policy now, lock := none }.put thread
    (.done (.applied (.accepted request.policy)))

inductive Action where
  | tick (now : ℚ)
  | policy
  | apply (request : Request)
  /-- `apply_policy` calls `policy`, which reads the clock. -/
  | call
  | read
  | look
  | insert
  | publish
  /-- The database fails, and the transaction is rolled back. -/
  | fail

/-- How `apply_policy` starts. -/
def applies (owner : Option Address) (now : ℚ) (request : Request) : Thread :=
  match signerRefusal owner request with
  | some refused => .done (.applied refused)
  | none => .applying now request

def act (owner : Option Address) (world : World) (thread : Nat) : Action → Thread → Option World
  | .tick now, _ => if world.clock ≤ now then some { world with clock := now } else none
  | .policy, .idle => some (world.put thread (.reading world.clock none))
  | .apply request, .idle => some (world.put thread (applies owner world.clock request))
  | .call, .applying now request =>
    some (world.put thread (.reading world.clock (some (now, request))))
  | .read, .reading now within =>
    if world.lock = none then some (world.read thread now within) else none
  | .look, .looking now request current =>
    if world.lock = none then some (world.look thread now request current) else none
  | .insert, .inserting now request =>
    if world.lock = none then some (world.insert thread now request) else none
  | .publish, .publishing now request => some (world.publish thread now request)
  | .fail, .inserting _ _ => some (world.put thread (.done .failed))
  | _, _ => none

def fresh (stored : List PolicyRow) (clock : ℚ) : World :=
  ⟨clock, ⟨stored, UNSET_POLICY, none⟩, none, fun _ => .idle, [], []⟩

/-- What the table `policy` holds: versions are its primary key, and positive. -/
def Rows (stored : List PolicyRow) : Prop :=
  (stored.map fun row => row.policy.version).Nodup ∧ ∀ row ∈ stored, 0 < row.policy.version

def policyRuns (owner : Option Address) (stored : List PolicyRow) :
    System World (Nat × Action) where
  start world := Rows stored ∧ ∃ clock, world = fresh stored clock
  step world turn := act owner world turn.1 turn.2 (world.threads turn.1)

def inserts : Action → Thread → Option Request
  | .insert, .inserting _ request => some request
  | _, _ => none

theorem inserts_some (action : Action) (thread : Thread) (request : Request)
    (there : inserts action thread = some request) :
    action = .insert ∧ ∃ now, thread = .inserting now request := by
  unfold inserts at there
  split at there
  · rename_i now _
    exact ⟨rfl, now, by rw [Option.some.inj there]⟩
  · cases there

/-- A new row is inserted only over a policy in memory of an older version. -/
def Ahead (world : World) (turn : Nat × Action) : Prop :=
  ∀ request ∈ inserts turn.2 (world.threads turn.1),
    world.policies.holds request.policy.version = false →
      world.policies.inForce.version < request.policy.version

instance (world : World) (turn : Nat × Action) : Decidable (Ahead world turn) :=
  inferInstanceAs (Decidable (∀ request ∈ inserts turn.2 (world.threads turn.1), _ → _))

/-- Accepted versions are above all before them, and returned versions do not fall. -/
structure Forward (stored : List PolicyRow) (world : World) : Prop where
  accepted : world.accepted.Pairwise (· < ·)
  above : ∀ row ∈ stored, ∀ version ∈ world.accepted, row.policy.version < version
  returned : world.returned.Pairwise (· ≤ ·)

def Fits (world : World) (thread : Nat) : Thread → Prop
  | .looking _ _ _ => world.policies.readAt ≠ none
  | .inserting _ request => world.policies.readAt ≠ none ∧ 0 < request.policy.version
  | .publishing _ request => world.lock = some thread ∧
      (∃ row ∈ world.policies.stored, row.policy = request.policy) ∧
      (∀ row ∈ world.policies.stored, row.policy.version ≤ request.policy.version) ∧
      world.policies.inForce.version < request.policy.version
  | _ => True

structure Sound (stored : List PolicyRow) (world : World) : Prop where
  kept : world.policies.Kept
  base : ∀ row ∈ stored, row ∈ world.policies.stored
  top : world.policies.readAt ≠ none → world.lock = none →
    ∀ row ∈ world.policies.stored, row.policy.version ≤ world.policies.inForce.version
  threads : ∀ thread, Fits world thread (world.threads thread)
  forward : Forward stored world
  logged : ∀ version ∈ world.accepted, ∃ row ∈ world.policies.stored, row.policy.version = version
  origin : ∀ row ∈ world.policies.stored, row ∈ stored ∨ row.policy.version ∈ world.accepted
  behind : ∀ version ∈ world.returned, version ≤ world.policies.inForce.version

variable (policies : Policies) (owner : Option Address) (stored : List PolicyRow)

theorem fresh_sound (rows : Rows stored) (clock : ℚ) :
    Sound stored (fresh stored clock) := by
  refine ⟨⟨rows.1, rows.2, Or.inl rfl⟩, fun row => id, ?_, fun _ => trivial, ⟨.nil, ?_, .nil⟩, ?_,
    fun row => Or.inl, ?_⟩ <;> simp [fresh]

variable (world : World)

theorem fits_put (thread moved : Nat) (state other : Thread) (fits : Fits world thread other) :
    Fits (world.put moved state) thread other := by
  cases other <;> exact fits

theorem Sound.put (sound : Sound stored world) (thread : Nat) (state : Thread)
    (fits : Fits world thread state) :
    Sound stored (world.put thread state) := by
  refine { sound with threads := ?_, forward := { sound.forward with } }
  exact (Function.forall_update_iff world.threads fun other => Fits (world.put thread state) other).mpr
    ⟨fits_put _ _ _ _ _ fits, fun other _ => fits_put _ _ _ _ _ (sound.threads other)⟩

theorem Fits.unlocked (world next : World) (thread : Nat) (state : Thread)
    (fits : Fits world thread state) (free : world.lock ≠ some thread)
    (loaded : world.policies.readAt ≠ none → next.policies.readAt ≠ none) :
    Fits next thread state := by
  cases state with
  | looking now request current => exact loaded fits
  | inserting now request => exact ⟨loaded fits.1, fits.2⟩
  | publishing now request => exact absurd fits.1 free
  | _ => trivial

theorem pairwise_concat (related : Nat → Nat → Prop) (versions : List Nat) (last : Nat)
    (pairs : versions.Pairwise related) (each : ∀ version ∈ versions, related version last) :
    (versions ++ [last]).Pairwise related := by
  rw [List.pairwise_append]
  refine ⟨pairs, List.pairwise_singleton _ _, ?_⟩
  intro version member other single
  exact List.mem_singleton.mp single ▸ each version member

theorem read_loaded (now : ℚ) : (policies.read now).readAt ≠ none := by
  unfold Policies.read
  split
  · simp
  · rename_i recent
    intro never
    simp [Policies.stale, never] at recent

theorem read_stored (now : ℚ) :
    (policies.read now).stored = policies.stored := by
  unfold Policies.read
  split <;> rfl

theorem read_top (now : ℚ)
    (top : policies.readAt ≠ none →
      ∀ row ∈ policies.stored, row.policy.version ≤ policies.inForce.version) :
    ∀ row ∈ policies.stored, row.policy.version ≤ (policies.read now).inForce.version := by
  have loaded := read_loaded policies now
  unfold Policies.read at loaded ⊢
  split at loaded
  · rename_i stale
    simp only [stale, ↓reduceIte]
    rcases latest_cases policies.stored with ⟨none_, -⟩ | ⟨-, highest⟩
    · rw [none_]
      intro row member
      cases member
    · exact highest
  · rename_i recent
    simp only [recent]
    exact top loaded

theorem read_sound (sound : Sound stored world) (free : world.lock = none) (thread : Nat) (now : ℚ)
    (within : Option (ℚ × Request)) :
    Sound stored (world.read thread now within) := by
  obtain ⟨kept, newer⟩ := sound.kept.read world.policies now
  have loaded := read_loaded world.policies now
  have more : world.policies.inForce.version ≤ (world.policies.read now).inForce.version := by
    rcases newer with same | above
    · rw [same]
    · exact above.le
  have read : Sound stored { world with
      policies := world.policies.read now
      returned := world.returned ++ [(world.policies.read now).inForce.version] } := by
    refine ⟨kept, ?_, ?_, ?_, ⟨sound.forward.accepted, sound.forward.above, ?_⟩, ?_, ?_, ?_⟩
    · simpa only [read_stored] using sound.base
    · intro _ _ row member
      rw [read_stored] at member
      exact read_top world.policies now (fun read => sound.top read free) row member
    · intro other
      refine (sound.threads other).unlocked _ _ _ _ ?_ fun _ => loaded
      simp [free]
    · refine pairwise_concat _ _ _ sound.forward.returned ?_
      exact fun version member => (sound.behind version member).trans more
    · simpa only [read_stored] using sound.logged
    · simpa only [read_stored] using sound.origin
    · intro version member
      rcases List.mem_append.mp member with old | new
      · exact (sound.behind version old).trans more
      · exact (List.mem_singleton.mp new).le
  refine read.put _ _ thread _ ?_
  cases within with
  | none => trivial
  | some call => exact loaded

theorem look_sound (sound : Sound stored world) (thread : Nat) (now : ℚ) (request : Request)
    (current : GatePolicy) (looking : world.threads thread = .looking now request current) :
    Sound stored (world.look thread now request current) := by
  have fits := sound.threads thread
  rw [looking] at fits
  refine sound.put _ _ thread _ ?_
  split
  · trivial
  · rename_i unanswered
    exact ⟨fits, (Nat.zero_le _).trans_lt (answer_none _ _ _ _ unanswered)⟩

theorem insert_sound (sound : Sound stored world) (free : world.lock = none) (thread : Nat)
    (now : ℚ) (request : Request) (inserting : world.threads thread = .inserting now request)
    (ahead : Ahead world (thread, .insert)) :
    Sound stored (world.insert thread now request) := by
  have loaded := sound.threads thread
  rw [inserting] at loaded
  have ahead := ahead request (by simp [inserting, inserts])
  unfold World.insert
  split
  · exact sound.put _ _ thread _ trivial
  · rename_i absent
    have absent : world.policies.holds request.policy.version = false := by simpa using absent
    have above := ahead absent
    have under : ∀ row ∈ world.policies.stored, row.policy.version < request.policy.version :=
      fun row member => (sound.top loaded.1 free row member).trans_lt above
    have rows : ∀ row, row ∈ world.policies.stored ++ [⟨request.policy, request.signature⟩] →
        row.policy.version ≤ request.policy.version := by
      intro row member
      rcases List.mem_append.mp member with old | new
      · exact (under row old).le
      · rw [List.mem_singleton.mp new]
    have inserted : Sound stored { world with
        policies := world.policies.insert ⟨request.policy, request.signature⟩
        lock := some thread
        accepted := world.accepted ++ [request.policy.version]
        threads := Function.update world.threads thread .idle } := by
      refine ⟨sound.kept.insert _ _ absent loaded.2, ?_, ?_, ?_,
        ⟨?_, ?_, sound.forward.returned⟩, ?_, ?_, sound.behind⟩
      · exact fun row member => List.mem_append_left _ (sound.base row member)
      · intro _ taken
        cases taken
      · refine (Function.forall_update_iff world.threads _).mpr ⟨trivial, ?_⟩
        intro other _
        exact (sound.threads other).unlocked _ _ _ _ (by simp [free]) id
      · refine pairwise_concat _ _ _ sound.forward.accepted ?_
        intro version member
        obtain ⟨row, there, rfl⟩ := sound.logged version member
        exact under row there
      · intro row member version logged
        rcases List.mem_append.mp logged with old | new
        · exact sound.forward.above row member version old
        · rw [List.mem_singleton.mp new]
          exact under row (sound.base row member)
      · intro version member
        rcases List.mem_append.mp member with old | new
        · obtain ⟨row, there, same⟩ := sound.logged version old
          exact ⟨row, List.mem_append_left _ there, same⟩
        · rw [List.mem_singleton.mp new]
          exact ⟨_, List.mem_append_right _ List.mem_cons_self, rfl⟩
      · intro row member
        rcases List.mem_append.mp member with old | new
        · exact (sound.origin row old).imp id (List.mem_append_left _)
        · rw [List.mem_singleton.mp new]
          exact Or.inr (List.mem_append_right _ List.mem_cons_self)
    have published := inserted.put _ _ thread (.publishing now request)
      ⟨rfl, ⟨_, List.mem_append_right _ List.mem_cons_self, rfl⟩, rows, above⟩
    simpa [World.put] using published

theorem publish_sound (sound : Sound stored world) (thread : Nat) (now : ℚ) (request : Request)
    (publishing : world.threads thread = .publishing now request) :
    Sound stored (world.publish thread now request) := by
  have fits := sound.threads thread
  rw [publishing] at fits
  obtain ⟨locked, ⟨row, member, same⟩, top, above⟩ := fits
  refine ⟨?_, sound.base, fun _ _ => top, ?_, { sound.forward with }, sound.logged, sound.origin, ?_⟩
  · have enforced := sound.kept.enforce _ row member now
    rwa [same] at enforced
  · refine (Function.forall_update_iff world.threads _).mpr ⟨trivial, ?_⟩
    intro other apart
    refine (sound.threads other).unlocked _ _ _ _ ?_ (fun _ => Option.some_ne_none _)
    rw [locked]
    exact fun twin => apart (Option.some.inj twin).symm
  · exact fun version member => (sound.behind version member).trans above.le

theorem insert_behind (sound : Sound stored world) (thread : Nat) (now : ℚ) (request : Request)
    (inserting : world.threads thread = .inserting now request)
    (behind : ¬Ahead world (thread, .insert)) :
    ¬Forward stored (world.insert thread now request) := by
  have fits := sound.threads thread
  rw [inserting] at fits
  simp only [Ahead, inserting, inserts, Option.mem_def, Option.some.injEq, forall_eq',
    Classical.not_imp, Nat.not_lt] at behind
  obtain ⟨absent, older⟩ := behind
  unfold World.insert
  simp only [absent, Bool.false_eq_true, ↓reduceIte]
  rintro ⟨rising, above, -⟩
  rcases sound.kept.known with unset | ⟨row, member, same⟩
  · rw [unset] at older
    exact absurd fits.2 (Nat.not_lt_of_le older)
  · rw [← same] at older
    rcases sound.origin row member with base | accepted
    · exact absurd (above row base _ (List.mem_append_right _ List.mem_cons_self))
        (Nat.not_lt_of_le older)
    · exact absurd ((List.pairwise_append.mp rising).2.2 _ accepted _ List.mem_cons_self)
        (Nat.not_lt_of_le older)

theorem act_sound (world next : World) (sound : Sound stored world) (thread : Nat) (action : Action)
    (ahead : Ahead world (thread, action))
    (taken : act owner world thread action (world.threads thread) = some next) :
    Sound stored next := by
  unfold act at taken
  split at taken
  case h_1 =>
    split at taken
    · obtain rfl := Option.some.inj taken
      exact { sound with threads := sound.threads, forward := { sound.forward with } }
    · cases taken
  case h_2 =>
    obtain rfl := Option.some.inj taken
    exact sound.put _ _ thread _ trivial
  case h_3 request _ =>
    obtain rfl := Option.some.inj taken
    refine sound.put _ _ thread _ ?_
    unfold applies
    split <;> trivial
  case h_4 =>
    obtain rfl := Option.some.inj taken
    exact sound.put _ _ thread _ trivial
  case h_5 now within _ =>
    split at taken
    · rename_i free
      obtain rfl := Option.some.inj taken
      exact read_sound stored world sound free thread now within
    · cases taken
  case h_6 now request current looking =>
    split at taken
    · obtain rfl := Option.some.inj taken
      exact look_sound stored world sound thread now request current looking
    · cases taken
  case h_7 now request inserting =>
    split at taken
    · rename_i free
      obtain rfl := Option.some.inj taken
      exact insert_sound stored world sound free thread now request inserting ahead
    · cases taken
  case h_8 now request publishing =>
    obtain rfl := Option.some.inj taken
    exact publish_sound stored world sound thread now request publishing
  case h_9 =>
    obtain rfl := Option.some.inj taken
    exact sound.put _ _ thread _ trivial
  case h_10 => cases taken

theorem act_behind (world next : World) (sound : Sound stored world) (turn : Nat × Action)
    (behind : ¬Ahead world turn)
    (taken : act owner world turn.1 turn.2 (world.threads turn.1) = some next) :
    ¬Forward stored next := by
  obtain ⟨thread, action⟩ := turn
  cases there : inserts action (world.threads thread) with
  | none => exact absurd (fun request member => by simp [there] at member) behind
  | some request =>
    obtain ⟨rfl, now, inserting⟩ := inserts_some _ _ _ there
    simp only [inserting, act] at taken
    split at taken
    · obtain rfl := Option.some.inj taken
      exact insert_behind stored world sound thread now request inserting behind
    · cases taken

theorem reached_sound (reached : (policyRuns owner stored).Reaches Ahead world) :
    Sound stored world := by
  refine System.Reaches.invariant (Sound stored) ?_ ?_ world reached
  · rintro _ ⟨rows, clock, rfl⟩
    exact fresh_sound stored rows clock
  · intro world turn next sound ahead taken
    exact act_sound owner stored world next sound turn.1 turn.2 ahead taken

/-- While every new row is inserted over an older policy, versions move forward; the first
step that does otherwise breaks that. -/
theorem versions_forward (owner : Option Address) (stored : List PolicyRow) (world : World)
    (reached : (policyRuns owner stored).Reaches Ahead world) :
    Forward stored world ∧ ∀ turn next, (policyRuns owner stored).step world turn = some next →
      (Forward stored next ↔ Ahead world turn) := by
  have sound := reached_sound owner stored world reached
  refine ⟨sound.forward, ?_⟩
  intro turn next taken
  constructor
  · intro forward
    by_contra behind
    exact act_behind owner stored world next sound turn behind taken forward
  · intro ahead
    exact (act_sound owner stored world next sound turn.1 turn.2 ahead taken).forward

def samplePolicy (version : Nat) : GatePolicy :=
  { UNSET_POLICY with version := version, token := some 7 }

def sampleRequest (version : Nat) : Request := ⟨samplePolicy version, "signed", .ok 5⟩

def sampleRows : List PolicyRow := [⟨samplePolicy 1, "signed"⟩]

/-- One request after the other, and then `policy`. -/
def sampleTurns : List (Nat × Action) :=
  [(0, .apply (sampleRequest 2)), (0, .call), (0, .read), (0, .look), (0, .insert), (0, .publish),
    (1, .apply (sampleRequest 3)), (1, .call), (1, .read), (1, .look), (1, .insert), (1, .publish),
    (2, .policy), (2, .read)]

theorem sampleTurns_taken :
    ((policyRuns (some 5) sampleRows).run (fresh sampleRows 0) sampleTurns).isSome := by
  decide +kernel

def sampleWorld : World :=
  ((policyRuns (some 5) sampleRows).run (fresh sampleRows 0) sampleTurns).get sampleTurns_taken

theorem fresh_reached (meets : World → Nat × Action → Prop) :
    (policyRuns (some 5) sampleRows).Reaches meets (fresh sampleRows 0) :=
  .start _ ⟨⟨by decide, by decide⟩, 0, rfl⟩

theorem versions_forward_sample :
    sampleWorld.accepted = [2, 3] ∧ sampleWorld.returned = [1, 2, 3] ∧
      Forward sampleRows sampleWorld := by
  have reached : (policyRuns (some 5) sampleRows).Reaches Ahead sampleWorld :=
    (fresh_reached Ahead).run _ _ sampleTurns (by decide +kernel) (Option.some_get _).symm
  exact ⟨by decide +kernel, by decide +kernel,
    (versions_forward (some 5) sampleRows sampleWorld reached).1⟩

def sampleRace : List (Nat × Action) :=
  [(0, .apply (sampleRequest 3)), (1, .apply (sampleRequest 2)), (0, .call), (1, .call),
    (0, .read), (1, .read), (0, .look), (1, .look), (0, .insert), (0, .publish),
    (2, .policy), (2, .read), (1, .insert), (1, .publish), (3, .policy), (3, .read)]

theorem sampleRace_taken :
    ((policyRuns (some 5) sampleRows).run (fresh sampleRows 0) sampleRace).isSome := by
  decide +kernel

def sampleRaced : World :=
  ((policyRuns (some 5) sampleRows).run (fresh sampleRows 0) sampleRace).get sampleRace_taken

/-- Version 2 is accepted after version 3, and `policy` returns it after version 3. -/
theorem sampleRaced_regresses :
    (policyRuns (some 5) sampleRows).Reaches always sampleRaced ∧
      sampleRaced.accepted = [3, 2] ∧ sampleRaced.returned = [1, 1, 3, 2] ∧
      ¬sampleRaced.accepted.Pairwise (· < ·) ∧ ¬sampleRaced.returned.Pairwise (· ≤ ·) := by
  have reached := (fresh_reached always).run _ sampleRaced sampleRace
    (System.runMeets_always _ _) (Option.some_get _).symm
  exact ⟨reached, by decide +kernel, by decide +kernel, by decide +kernel, by decide +kernel⟩

end RhPools.GateVersions
