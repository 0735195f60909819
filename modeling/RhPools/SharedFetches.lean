import RhPools.LpGate
import RhPools.GuardedRuns

/-! `_Oracle.observe` under any number of threads. A call reads its clock, then looks the wallet
up under the lock: it finds a fresh holding, joins the fetch that another call leads, or leads
one. The leader writes the cache when the balance is there; a call that joined reads the cache
once more when it stops waiting. A fetch has the number of the thread that leads it, and what
it brings into the cache carries that number. -/

namespace RhPools.SharedFetches
open TxChain OrderedTables LpGate GuardedRuns

/-- The arguments of `observe`, with the clock at its start. -/
structure Call where
  token : Address
  wallet : Address
  graceS : Nat
  now : ℚ
  deriving DecidableEq

inductive Thread where
  | idle
  | looking (call : Call)
  | leading (call : Call) (cached : Option (Seen Nat))
  | waiting (call : Call) (leader : Nat)
  | returned (result : Option (Seen Nat))
  | raised

instance : DecidableEq (Seen Nat) := fun left right =>
  decidable_of_iff (left.holding = right.holding ∧ left.tag = right.tag) (by
    cases left
    cases right
    simp)

structure Joined where
  call : Call
  leader : Nat
  result : Option (Seen Nat)
  deriving DecidableEq

/-- The oracle with its threads; `succeeded` records what each fetch brought, `joined` what the
calls that joined one returned. -/
structure World where
  cache : Cache Nat
  inflight : Address → Option Nat
  threads : Nat → Thread
  succeeded : Nat → Option Holding
  joined : List Joined

def World.fresh : World :=
  { cache := .empty, inflight := fun _ => none, threads := fun _ => .idle
    succeeded := fun _ => none, joined := [] }

def World.put (world : World) (thread : Nat) (state : Thread) : World :=
  { world with threads := Function.update world.threads thread state }

/-- `replace(holding, total_supply_raw=self._supply(..))`. -/
def supplied (supply : Option Nat) (seen : Seen Nat) : Seen Nat :=
  ⟨withSupply supply seen, seen.tag⟩

def World.look (world : World) (thread : Nat) (call : Call) (supply : Option Nat) : World :=
  match hit world.cache call.wallet call.now with
  | some (seen, cache) =>
    { world with cache := cache }.put thread (.returned (some (supplied supply seen)))
  | none =>
    match world.inflight call.wallet with
    | some leader => world.put thread (.waiting call leader)
    | none =>
      { world with inflight := Function.update world.inflight call.wallet (some thread) }.put
        thread (.leading call (world.cache.get call.wallet))

def World.stored (world : World) (thread : Nat) (seen : Seen Nat) (cache : Cache Nat)
    (supply : Option Nat) : World :=
  { world with
    cache := cache
    succeeded := Function.update world.succeeded thread (some seen.holding) }.put thread
      (.returned (some (supplied supply seen)))

/-- The locked section that ends a fetch, and what its leader returns. -/
def World.fetched (world : World) (thread : Nat) (call : Call) (cached : Option (Seen Nat))
    (reply : Option Reply) (supply : Option Nat) : World :=
  let ended := { world with inflight := Function.update world.inflight call.wallet none }
  match reply with
  | none =>
    ended.put thread (.returned ((usable cached call.now call.graceS).map (supplied supply)))
  | some reply =>
    let seen := LpGate.fetched call.wallet call.now reply thread
    ended.stored thread seen (store world.cache call.wallet seen) supply

def World.rereads (world : World) (call : Call) (supply : Option Nat) : Option (Seen Nat) :=
  (usable (world.cache.get call.wallet) call.now call.graceS).map (supplied supply)

def World.reread (world : World) (thread : Nat) (call : Call) (leader : Nat)
    (supply : Option Nat) : World :=
  let result := world.rereads call supply
  let joined : Joined := ⟨call, leader, result⟩
  { world with joined := world.joined ++ [joined] }.put thread (.returned result)

inductive Action where
  | start (call : Call)
  | look (supply : Option Nat)
  /-- The node answers `balanceOf`, or the fetch fails. -/
  | fetched (reply : Option Reply) (supply : Option Nat)
  /-- An exception that `observe` does not catch ends the fetch. -/
  | crash
  /-- The fetch has ended, or ten seconds are gone. -/
  | reread (supply : Option Nat)
  | forgetAll

def act (world : World) (thread : Nat) : Action → Thread → Option World
  | .start call, .idle => some (world.put thread (.looking call))
  | .look supply, .looking call => some (world.look thread call supply)
  | .fetched reply supply, .leading call cached =>
    some (world.fetched thread call cached reply supply)
  | .crash, .leading call _ =>
    some ({ world with inflight := Function.update world.inflight call.wallet none }.put thread
      .raised)
  | .reread supply, .waiting call leader => some (world.reread thread call leader supply)
  | .forgetAll, _ => some { world with cache := .empty }
  | _, _ => none

def fetchRuns : System World (Nat × Action) where
  start world := world = World.fresh
  step world turn := act world turn.1 turn.2 (world.threads turn.1)

/-- A call that joined a fetch returned what the fetch brought, where that is young enough for
the cache. -/
def Served (world : World) (joined : Joined) : Prop :=
  ∀ holding ∈ world.succeeded joined.leader, holding.fresh joined.call.now = true →
    ∃ supply, joined.result = some (supplied supply ⟨holding, joined.leader⟩)

def Shared (world : World) : Prop := ∀ joined ∈ world.joined, Served world joined

def World.keeps (world : World) (wallet : Address) (leader : Nat) : Prop :=
  (world.cache.get wallet).map Seen.tag = some leader

instance (world : World) (wallet : Address) (leader : Nat) :
    Decidable (world.keeps wallet leader) := inferInstanceAs (Decidable (_ = _))

def rereading : Action → Thread → Option (Call × Nat)
  | .reread _, .waiting call leader => some (call, leader)
  | _, _ => none

def succeeding : Action → Thread → Option Call
  | .fetched (some _) _, .leading call _ => some call
  | _, _ => none

/-- A call that joined a fetch stops waiting after the fetch has ended, while the cache has what
it brought, and that is as young as the grace asks; a fetch whose holding is too old for the
cache, or that fails, does not matter. -/
def InTime (world : World) (turn : Nat × Action) : Prop :=
  (∀ joins ∈ rereading turn.2 (world.threads turn.1), ∀ holding ∈ world.succeeded joins.2,
    holding.fresh joins.1.now = true →
      world.keeps joins.1.wallet joins.2 ∧ joins.1.now - holding.observedAt ≤ joins.1.graceS) ∧
  ∀ call ∈ succeeding turn.2 (world.threads turn.1), ∀ joined ∈ world.joined,
    joined.leader = turn.1 → ORACLE_TTL_S ≤ joined.call.now - call.now

instance (world : World) (turn : Nat × Action) : Decidable (InTime world turn) :=
  inferInstanceAs (Decidable (_ ∧ _))

def Thread.unanswered : Thread → Prop
  | .idle | .looking _ | .leading _ _ => True
  | _ => False

structure Sound (world : World) : Prop where
  cached : ∀ entry ∈ world.cache.entries,
    world.succeeded entry.2.tag = some entry.2.holding
  unanswered : ∀ thread, (world.threads thread).unanswered → world.succeeded thread = none
  resulted : ∀ joined ∈ world.joined, ∀ seen, joined.result = some seen →
    (world.succeeded seen.tag).isSome

variable {world : World}

theorem sound_moved (next : World) (thread : Nat) (state : Thread) (sound : Sound world)
    (threads : next.threads = Function.update world.threads thread state)
    (succeeded : next.succeeded = world.succeeded) (joined : next.joined = world.joined)
    (cached : ∀ entry ∈ next.cache.entries, entry ∈ world.cache.entries)
    (started : state.unanswered → (world.threads thread).unanswered) : Sound next where
  cached entry member := succeeded ▸ sound.cached entry (cached entry member)
  unanswered other waits := by
    rw [threads] at waits
    rw [succeeded]
    by_cases same : other = thread
    · subst same
      rw [Function.update_self] at waits
      exact sound.unanswered other (started waits)
    · rw [Function.update_of_ne same] at waits
      exact sound.unanswered other waits
  resulted one member := by
    rw [joined] at member
    rw [succeeded]
    exact sound.resulted one member

theorem shared_moved (next : World) (succeeded : next.succeeded = world.succeeded)
    (joined : next.joined = world.joined) : Shared next ↔ Shared world := by
  unfold Shared Served
  rw [succeeded, joined]

variable (thread : Nat)

/-- The fetch brought nothing before, so a call that stopped waiting for it has something
else. -/
theorem served_stored (seen : Seen Nat) (cache : Cache Nat) (supply : Option Nat)
    (sound : Sound world) (leads : (world.threads thread).unanswered) (joined : Joined)
    (member : joined ∈ world.joined) :
    Served (world.stored thread seen cache supply) joined ↔ Served world joined ∧
      (joined.leader = thread → seen.holding.fresh joined.call.now = false) := by
  unfold Served
  rw [show (world.stored thread seen cache supply).succeeded =
    Function.update world.succeeded thread (some seen.holding) from rfl]
  have none_ := sound.unanswered thread leads
  by_cases mine : joined.leader = thread
  · subst mine
    rw [Function.update_self, none_]
    constructor
    · intro served
      refine ⟨fun _ absent => (Option.not_mem_none _ absent).elim, fun _ => ?_⟩
      by_contra fresh
      obtain ⟨supply, result⟩ := served seen.holding rfl (by simpa using fresh)
      have there := sound.resulted joined member _ result
      rw [show (supplied supply ⟨seen.holding, joined.leader⟩).tag = joined.leader from rfl, none_] at there
      cases there
    · rintro ⟨-, stale⟩ brought there fresh
      cases there
      rw [stale rfl] at fresh
      cases fresh
  · rw [Function.update_of_ne mine]
    simp [mine]

theorem shared_stored (seen : Seen Nat) (cache : Cache Nat) (supply : Option Nat)
    (sound : Sound world) (leads : (world.threads thread).unanswered) (shared : Shared world) :
    Shared (world.stored thread seen cache supply) ↔
      ∀ joined ∈ world.joined, joined.leader = thread →
        seen.holding.fresh joined.call.now = false := by
  have each := fun joined member =>
    served_stored thread seen cache supply sound leads joined member
  constructor
  · intro kept joined member mine
    exact ((each joined member).mp (kept joined member)).2 mine
  · intro stale joined member
    exact (each joined member).mpr ⟨shared joined member, stale joined member⟩

variable (call : Call)

/-- What a reread finds is what the fetch brought just when the cache still has it and the grace
admits it. -/
theorem rereads_iff (leader : Nat) (supply : Option Nat) (holding : Holding) (sound : Sound world)
    (brought : world.succeeded leader = some holding) :
    (∃ given, world.rereads call supply = some (supplied given ⟨holding, leader⟩)) ↔
      world.keeps call.wallet leader ∧ call.now - holding.observedAt ≤ call.graceS := by
  unfold World.rereads World.keeps usable
  cases there : world.cache.get call.wallet with
  | none => simp
  | some seen =>
    have brings := sound.cached _ ((get_some _ _ _).mp there)
    constructor
    · rintro ⟨given, found⟩
      obtain ⟨kept, inside, same⟩ := Option.map_eq_some_iff.mp found
      obtain ⟨here, young⟩ := Option.filter_eq_some_iff.mp inside
      obtain rfl : seen = kept := Option.some.inj here
      have tag : seen.tag = leader := congrArg Seen.tag same
      rw [tag, brought, Option.some.injEq] at brings
      rw [brings]
      exact ⟨by simp [tag], by simpa using young⟩
    · rintro ⟨tag, young⟩
      have tag : seen.tag = leader := by simpa using tag
      rw [tag, brought, Option.some.injEq] at brings
      refine ⟨supply, ?_⟩
      obtain ⟨held, mark⟩ := seen
      dsimp only at tag brings
      subst tag brings
      simp [Option.filter, young]

theorem served_reread (leader : Nat) (supply : Option Nat) (sound : Sound world) :
    Served world ⟨call, leader, world.rereads call supply⟩ ↔
      ∀ holding ∈ world.succeeded leader, holding.fresh call.now = true →
        world.keeps call.wallet leader ∧ call.now - holding.observedAt ≤ call.graceS := by
  constructor
  · intro served holding brought young
    exact (rereads_iff call leader supply holding sound brought).mp (served holding brought young)
  · intro inTime holding brought young
    exact (rereads_iff call leader supply holding sound brought).mpr (inTime holding brought young)

theorem look_sound (supply : Option Nat) (sound : Sound world)
    (looks : world.threads thread = .looking call) : Sound (world.look thread call supply) := by
  have started : (world.threads thread).unanswered := by
    rw [looks]
    trivial
  unfold World.look
  split
  · rename_i seen cache found
    refine sound_moved _ thread _ sound rfl rfl rfl ?_ (fun _ => started)
    intro entry member
    rw [(hit_some _ _ _ _ _ found).2.2] at member
    exact (mem_touch _ _ _).mp member
  · split
    · exact sound_moved _ thread _ sound rfl rfl rfl (fun _ member => member) (fun _ => started)
    · exact sound_moved _ thread _ sound rfl rfl rfl (fun _ member => member) (fun _ => started)

theorem stored_sound (supply : Option Nat) (sound : Sound world)
    (started : (world.threads thread).unanswered) (cache : Cache Nat) (seen : Seen Nat)
    (tag : seen.tag = thread)
    (stores : ∀ entry ∈ cache.entries, entry ∈ world.cache.entries ∨ entry.2 = seen) :
    Sound (world.stored thread seen cache supply) := by
  have none_ := sound.unanswered thread started
  constructor
  · intro entry member
    rcases stores entry member with old | new
    · have brought := sound.cached entry old
      have other : entry.2.tag ≠ thread := by
        intro same
        rw [same, none_] at brought
        cases brought
      simpa [World.stored, World.put, Function.update_of_ne other] using brought
    · simp [World.stored, World.put, new, tag]
  · intro other waits
    by_cases same : other = thread
    · subst same
      simp [World.stored, World.put, Thread.unanswered] at waits
    · simp only [World.stored, World.put, Function.update_of_ne same] at waits ⊢
      exact sound.unanswered other waits
  · intro joined member held result
    have there := sound.resulted joined member held result
    have other : held.tag ≠ thread := by
      intro same
      rw [same, none_] at there
      cases there
    simpa [World.stored, World.put, Function.update_of_ne other] using there

theorem fetched_sound (cached : Option (Seen Nat)) (reply : Option Reply) (supply : Option Nat)
    (sound : Sound world) (leads : world.threads thread = .leading call cached) :
    Sound (world.fetched thread call cached reply supply) := by
  have started : (world.threads thread).unanswered := by
    rw [leads]
    trivial
  cases reply with
  | none =>
    exact sound_moved _ thread _ sound rfl rfl rfl (fun _ member => member) (fun _ => started)
  | some reply =>
    have ended : Sound { world with
        inflight := Function.update world.inflight call.wallet none } :=
      ⟨sound.cached, sound.unanswered, sound.resulted⟩
    refine stored_sound thread supply ended started _ _ rfl ?_
    intro entry member
    rcases mem_store _ _ _ entry member with ⟨old, -⟩ | rfl
    · exact .inl old
    · exact .inr rfl

theorem reread_sound (leader : Nat) (supply : Option Nat) (sound : Sound world) :
    Sound (world.reread thread call leader supply) := by
  constructor
  · exact sound.cached
  · intro other waits
    by_cases same : other = thread
    · subst same
      simp [World.reread, World.put, Thread.unanswered] at waits
    · simp only [World.reread, World.put, Function.update_of_ne same] at waits ⊢
      exact sound.unanswered other waits
  · intro joined member seen result
    rcases List.mem_append.mp member with old | new
    · exact sound.resulted joined old seen result
    · obtain rfl := List.mem_singleton.mp new
      obtain ⟨kept, inside, rfl⟩ := Option.map_eq_some_iff.mp result
      have there := (Option.filter_eq_some_iff.mp inside).1
      have brought := sound.cached _ ((get_some _ _ _).mp there)
      exact Option.isSome_of_eq_some brought

theorem act_sound (action : Action) (next : World) (sound : Sound world)
    (taken : act world thread action (world.threads thread) = some next) : Sound next := by
  cases action with
  | start call =>
    cases state : world.threads thread <;> rw [state] at taken <;> cases taken
    exact sound_moved _ thread _ sound rfl rfl rfl (fun _ member => member)
      fun _ => state ▸ trivial
  | look supply =>
    cases state : world.threads thread <;> rw [state] at taken <;> cases taken
    exact look_sound thread _ supply sound state
  | fetched reply supply =>
    cases state : world.threads thread <;> rw [state] at taken <;> cases taken
    exact fetched_sound thread _ _ reply supply sound state
  | crash =>
    cases state : world.threads thread <;> rw [state] at taken <;> cases taken
    exact sound_moved _ thread .raised sound rfl rfl rfl (fun _ member => member) False.elim
  | reread supply =>
    cases state : world.threads thread <;> rw [state] at taken <;> cases taken
    exact reread_sound thread _ _ supply sound
  | forgetAll =>
    cases state : world.threads thread <;> rw [state] at taken <;> cases taken <;>
      exact ⟨by simp [OrderedTable.empty], sound.unanswered, sound.resulted⟩

theorem act_shared (action : Action) (next : World) (sound : Sound world) (shared : Shared world)
    (taken : act world thread action (world.threads thread) = some next) :
    Shared next ↔ InTime world (thread, action) := by
  have same : next.succeeded = world.succeeded → next.joined = world.joined →
      InTime world (thread, action) → (Shared next ↔ InTime world (thread, action)) := by
    intro succeeded joined inTime
    exact iff_of_true ((shared_moved next succeeded joined).mpr shared) inTime
  cases action with
  | start call =>
    cases state : world.threads thread <;> rw [state] at taken <;> cases taken
    exact same rfl rfl (by simp [InTime, rereading, succeeding])
  | look supply =>
    cases state : world.threads thread <;> rw [state] at taken <;> cases taken
    rename_i call
    refine same ?_ ?_ (by simp [InTime, rereading, succeeding])
    · unfold World.look
      repeat' split
      all_goals rfl
    · unfold World.look
      repeat' split
      all_goals rfl
  | fetched reply supply =>
    cases state : world.threads thread <;> rw [state] at taken <;> cases taken
    rename_i call cached
    have started : (world.threads thread).unanswered := by
      rw [state]
      trivial
    cases reply with
    | none => exact same rfl rfl (by simp [InTime, rereading, succeeding])
    | some reply =>
      have ended : Sound { world with
          inflight := Function.update world.inflight call.wallet none } :=
        ⟨sound.cached, sound.unanswered, sound.resulted⟩
      have stale : ∀ joined : Joined,
          (LpGate.fetched call.wallet call.now reply thread).holding.fresh joined.call.now =
            false ↔ ORACLE_TTL_S ≤ joined.call.now - call.now := by
        intro joined
        rw [Holding.fresh, Bool.eq_false_iff, ne_eq, decide_eq_true_eq, not_lt]
        rfl
      have stored := shared_stored thread (LpGate.fetched call.wallet call.now reply thread)
        (store world.cache call.wallet (LpGate.fetched call.wallet call.now reply thread))
        supply ended started shared
      simp only [stale] at stored
      refine stored.trans ?_
      simp [InTime, state, rereading, succeeding]
  | crash =>
    cases state : world.threads thread <;> rw [state] at taken <;> cases taken
    exact same rfl rfl (by simp [InTime, rereading, succeeding])
  | reread supply =>
    cases state : world.threads thread <;> rw [state] at taken <;> cases taken
    rename_i call leader
    have only_ : InTime world (thread, .reread supply) ↔
        Served world ⟨call, leader, world.rereads call supply⟩ := by
      rw [served_reread call leader supply sound]
      simp [InTime, state, rereading, succeeding]
    rw [only_]
    constructor
    · intro kept
      exact kept _ (List.mem_append_right _ (List.mem_singleton_self _))
    · intro served joined member
      rcases List.mem_append.mp member with old | last
      · exact shared joined old
      · rw [List.mem_singleton.mp last]
        exact served
  | forgetAll =>
    cases state : world.threads thread <;> rw [state] at taken <;> cases taken <;>
      exact same rfl rfl (by simp [InTime, rereading, succeeding])

theorem fresh_sound : Sound World.fresh where
  cached := by simp [World.fresh, OrderedTable.empty]
  unanswered := fun _ _ => rfl
  resulted := by simp [World.fresh]

theorem runs_sound (meets : World → Nat × Action → Prop) (reached : fetchRuns.Reaches meets world) :
    Sound world :=
  System.Reaches.invariant Sound (fun state (initial : state = World.fresh) => initial ▸ fresh_sound)
    (fun _ turn next sound _ taken => act_sound turn.1 turn.2 next sound taken) world reached

/-- While every step is in time, joined calls return what their fetches brought; and the first
step that is not leaves a call that did not. -/
theorem fetches_shared (reached : fetchRuns.Reaches InTime world) :
    Shared world ∧ ∀ turn next, fetchRuns.step world turn = some next →
      (Shared next ↔ InTime world turn) := by
  have shared : Shared world := by
    induction reached with
    | start world initial =>
      cases initial
      simp [Shared, World.fresh]
    | step world next turn reached met taken shared =>
      exact (act_shared turn.1 turn.2 next (runs_sound InTime reached) shared taken).mpr met
  exact ⟨shared, fun turn next taken =>
    act_shared turn.1 turn.2 next (runs_sound InTime reached) shared taken⟩

def joinTurns (graceS : Nat) : List (Nat × Action) :=
  [(0, .start ⟨1, 2, graceS, 1000⟩), (0, .look none), (1, .start ⟨1, 2, graceS, 1000 + 1 / 2⟩),
    (1, .look none), (0, .fetched (some ⟨50, 7⟩) (some 100)), (1, .reread (some 100))]

theorem joinTurns_taken (graceS : Nat) : (fetchRuns.run World.fresh (joinTurns graceS)).isSome := by
  rfl

def joinWorld (graceS : Nat) : World :=
  (fetchRuns.run World.fresh (joinTurns graceS)).get (joinTurns_taken graceS)

/-- Without a grace the call that joined returns nothing. -/
theorem fetches_not_shared :
    ¬ ∀ world, fetchRuns.Reaches always world → Shared world := by
  intro always_shared
  have reached : fetchRuns.Reaches always (joinWorld 0) :=
    System.Reaches.run World.fresh _ (joinTurns 0) (.start _ rfl) (System.runMeets_always _ _)
      (Option.some_get _).symm
  have joined : ⟨⟨1, 2, 0, 1000 + 1 / 2⟩, 0, none⟩ ∈ (joinWorld 0).joined := by decide +kernel
  have brought : (joinWorld 0).succeeded 0 = some ⟨2, 50, 7, 1000, none⟩ := by decide +kernel
  obtain ⟨supply, result⟩ := always_shared _ reached _ joined _ brought (by decide +kernel)
  cases result

theorem fetches_shared_join : (joinWorld 900).joined =
      [⟨⟨1, 2, 900, 1000 + 1 / 2⟩, 0, some ⟨⟨2, 50, 7, 1000, some 100⟩, 0⟩⟩] ∧
    Shared (joinWorld 900) := by
  have reached : fetchRuns.Reaches InTime (joinWorld 900) :=
    System.Reaches.run World.fresh _ (joinTurns 900) (.start _ rfl) (by decide +kernel)
      (Option.some_get _).symm
  exact ⟨by decide +kernel, (fetches_shared reached).1⟩

end RhPools.SharedFetches
