import RhPools.LpGate
import RhPools.GuardedRuns

/-! The balance oracle of the holder gate under any number of threads, with policies that
change the token. A call of `entitlement` reads the policy, looks a holding up or joins or
leads the fetch of it, gets the reply, writes the cache and decides in separate steps; the
lock of the gate is held while a policy is published and the cache is emptied. -/

namespace RhPools.GateOracle
open TxChain OrderedTables LpGate GuardedRuns

/-- A call of `entitlement` past its policy and its clock. -/
structure Call where
  wallet : Address
  policy : GatePolicy
  now : ℚ

inductive Within where
  | entitlement (wallet : Address)
  | apply (now : ℚ) (request : Request)

/-- Where a thread is in `entitlement` or `apply_policy`. Holdings carry the token their
balance was asked of; `under` is the token in force when the leader looked. -/
inductive Thread where
  | idle
  | applying (now : ℚ) (request : Request)
  | reading (readAt : ℚ) (within : Within)
  | checking (now : ℚ) (request : Request) (current : GatePolicy)
  | inserting (now : ℚ) (request : Request)
  | policed (wallet : Address) (policy : GatePolicy)
  | observing (call : Call) (token : Address)
  | looking (call : Call) (token : Address) (at_ : ℚ)
  | leading (call : Call) (token : Address) (at_ : ℚ) (cached : Option (Seen Address))
      (under : Option Address)
  | replied (call : Call) (token : Address) (at_ : ℚ) (cached : Option (Seen Address))
      (under : Option Address) (reply : Option Reply)
  | waiting (call : Call) (token : Address) (at_ : ℚ)
  | deciding (call : Call) (seen : Option (Seen Address))
  | entitled (ent : Entitlement)
  | applied (applied : Applied)

structure Decision where
  call : Call
  seen : Option (Seen Address)
  ent : Entitlement

/-- The state of the gate; `replies` and `decisions` record the balances the node answered
and the entitlements returned. -/
structure World where
  clock : ℚ
  gate : Gate Address
  inflight : Address → Bool
  threads : Nat → Thread
  replies : List Observation
  decisions : List Decision

def World.inForce (world : World) : GatePolicy := world.gate.policies.inForce

def World.put (world : World) (thread : Nat) (state : Thread) : World :=
  { world with threads := Function.update world.threads thread state }

/-- How `apply_policy` starts. -/
def applies (owner : Option Address) (now : ℚ) (request : Request) : Thread :=
  match signerRefusal owner request with
  | some refused => .applied refused
  | none => .applying now request

/-- The locked section of `policy`. -/
def World.read (world : World) (thread : Nat) (now : ℚ) (within : Within) : World :=
  let gate := world.gate.policy now
  { world with gate := gate }.put thread (match within with
    | .entitlement wallet => .policed wallet gate.policies.inForce
    | .apply now request => .checking now request gate.policies.inForce)

def checked (policies : Policies) (now : ℚ) (request : Request) (current : GatePolicy) : Thread :=
  match answer policies current request now with
  | some applied => .applied applied
  | none => .inserting now request

def World.insert (world : World) (thread : Nat) (now : ℚ) (request : Request) : World :=
  if world.gate.policies.holds request.policy.version then
    world.put thread (.applied .integrity)
  else
    { world with gate := { world.gate with
        policies := world.gate.policies.publish ⟨request.policy, request.signature⟩ now
        cache := .empty } }.put thread (.applied (.accepted request.policy))

/-- `entitlement` reads its clock; without a token there is nothing to observe. -/
def timed (wallet : Address) (policy : GatePolicy) (now : ℚ) : Thread :=
  match policy.token with
  | none => .deciding ⟨wallet, policy, now⟩ none
  | some token => .observing ⟨wallet, policy, now⟩ token

/-- The first locked section of `observe`: a fresh holding, or a fetch to join or to lead. -/
def World.look (world : World) (thread : Nat) (call : Call) (token : Address) (at_ : ℚ) : World :=
  match hit world.gate.cache call.wallet at_ with
  | some (seen, cache) =>
    { world with gate := { world.gate with cache := cache } }.put thread
      (.deciding call (some seen))
  | none =>
    if world.inflight call.wallet then world.put thread (.waiting call token at_)
    else
      { world with inflight := Function.update world.inflight call.wallet true }.put thread
        (.leading call token at_ (world.gate.cache.get call.wallet) world.inForce.token)

/-- The node answers `balanceOf`, or it fails. -/
def World.reply (world : World) (thread : Nat) (call : Call) (token : Address) (at_ : ℚ)
    (cached : Option (Seen Address)) (under : Option Address) (reply : Option Reply) : World :=
  let answered : Option Observation :=
    reply.map fun reply => ⟨call.wallet, token, reply.balance, at_⟩
  { world with replies := world.replies ++ answered.toList }.put thread
    (.replied call token at_ cached under reply)

def World.write (world : World) (thread : Nat) (call : Call) (token : Address) (at_ : ℚ)
    (cached : Option (Seen Address)) (reply : Option Reply) : World :=
  let world := { world with inflight := Function.update world.inflight call.wallet false }
  match reply with
  | none => world.put thread (.deciding call (usable cached at_ call.policy.graceS))
  | some reply =>
    let seen := fetched call.wallet at_ reply token
    { world with
      gate := { world.gate with cache := store world.gate.cache call.wallet seen } }.put thread
        (.deciding call (some seen))

def World.reread (world : World) (thread : Nat) (call : Call) (at_ : ℚ) : World :=
  world.put thread
    (.deciding call (usable (world.gate.cache.get call.wallet) at_ call.policy.graceS))

/-- The anchors and the entitlement, with what the supply cache answers. -/
def World.decide (world : World) (thread : Nat) (call : Call) (seen : Option (Seen Address))
    (supply : Option Nat) : World :=
  let settled := settle call.policy call.wallet (seen.map (withSupply supply)) call.now
    (world.gate.qualified call.wallet)
  let decision : Decision := ⟨call, seen, settled.1⟩
  { world with
    gate := { world.gate with
      qualified := Function.update world.gate.qualified call.wallet settled.2 }
    decisions := world.decisions ++ [decision] }.put thread (.entitled settled.1)

inductive Action where
  | tick (now : ℚ)
  /-- A row that another process writes into the database. -/
  | stored (row : PolicyRow)
  | entitlement (wallet : Address)
  | apply (request : Request)
  /-- `apply_policy` calls `policy`, which reads the clock. -/
  | call
  | read
  | check
  | insert
  /-- `entitlement`, and then `observe`, reads the clock. -/
  | time
  | look
  | reply (reply : Option Reply)
  | write
  /-- The wait of a call that joined is over: the fetch has ended, or ten seconds are gone. -/
  | reread
  | decide (supply : Option Nat)

def act (owner : Option Address) (world : World) (thread : Nat) : Action → Thread → Option World
  | .tick now, _ => if world.clock ≤ now then some { world with clock := now } else none
  | .stored row, _ =>
    if world.gate.policies.holds row.policy.version then none
    else some { world with gate :=
      { world.gate with policies := world.gate.policies.insert row } }
  | .entitlement wallet, .idle => some (world.put thread (.reading world.clock (.entitlement wallet)))
  | .apply request, .idle => some (world.put thread (applies owner world.clock request))
  | .call, .applying now request =>
    some (world.put thread (.reading world.clock (.apply now request)))
  | .read, .reading now within => some (world.read thread now within)
  | .check, .checking now request current =>
    some (world.put thread (checked world.gate.policies now request current))
  | .insert, .inserting now request => some (world.insert thread now request)
  | .time, .policed wallet policy => some (world.put thread (timed wallet policy world.clock))
  | .time, .observing call token => some (world.put thread (.looking call token world.clock))
  | .look, .looking call token at_ => some (world.look thread call token at_)
  | .reply reply, .leading call token at_ cached under =>
    some (world.reply thread call token at_ cached under reply)
  | .write, .replied call token at_ cached _ reply =>
    some (world.write thread call token at_ cached reply)
  | .reread, .waiting call _ at_ => some (world.reread thread call at_)
  | .decide supply, .deciding call seen => some (world.decide thread call seen supply)
  | _, _ => none

def fresh (stored : List PolicyRow) (qualified : Address → Feature → Option Anchor) (clock : ℚ) :
    World :=
  { clock := clock, gate := ⟨⟨stored, UNSET_POLICY, none⟩, .empty, qualified⟩
    inflight := fun _ => false, threads := fun _ => .idle, replies := [], decisions := [] }

def oracleRuns (owner : Option Address) : System World (Nat × Action) where
  start world := ∃ stored qualified clock, world = fresh stored qualified clock
  step world turn := act owner world turn.1 turn.2 (world.threads turn.1)

/-- The token in force and the token of the call where a step takes a holding out of the
cache that is fresh to the call, or writes one into it; a leader took its own when it looked. -/
def touched (world : World) : Action → Thread → Option (Option Address × Address)
  | .look, .looking call token at_ =>
    (hit world.gate.cache call.wallet at_).map fun _ => (world.inForce.token, token)
  | .write, .replied _ token _ _ _ (some _) => some (world.inForce.token, token)
  | .write, .replied call token at_ cached under none =>
    ((usable cached at_ call.policy.graceS).filter (·.holding.fresh call.now)).map
      fun _ => (under, token)
  | .reread, .waiting call token at_ =>
    ((usable (world.gate.cache.get call.wallet) at_ call.policy.graceS).filter
      (·.holding.fresh call.now)).map fun _ => (world.inForce.token, token)
  | _, _ => none

def Steady (world : World) (turn : Nat × Action) : Prop :=
  ∀ pair ∈ touched world turn.2 (world.threads turn.1), pair.1 = some pair.2

instance (world : World) (turn : Nat × Action) : Decidable (Steady world turn) :=
  match found : touched world turn.2 (world.threads turn.1) with
  | none => .isTrue (by simp [Steady, found])
  | some pair => decidable_of_iff (pair.1 = some pair.2) (by simp [Steady, found])

def Logged (world : World) (wallet : Address) (seen : Seen Address) : Prop :=
  ⟨wallet, seen.tag, seen.holding.balanceRaw, seen.holding.observedAt⟩ ∈ world.replies

def Backed (world : World) (call : Call) (seen : Seen Address) : Prop :=
  call.policy.token = some seen.tag ∧ Logged world call.wallet seen

def Rests (decision : Decision) : Prop :=
  (∃ feature ∈ decision.ent.qualified, 0 < decision.call.policy.threshold feature) ∨
    0 < decision.ent.tier

def Fits (world : World) : Thread → Prop
  | .observing call token | .looking call token _ | .waiting call token _ =>
    call.policy.token = some token
  | .leading call token _ cached under => call.policy.token = some token ∧
      ∀ seen ∈ cached, under = some seen.tag ∧ Logged world call.wallet seen
  | .replied call token at_ cached under reply => call.policy.token = some token ∧
      (∀ seen ∈ cached, under = some seen.tag ∧ Logged world call.wallet seen) ∧
      ∀ answered ∈ reply, Logged world call.wallet (fetched call.wallet at_ answered token)
  | .deciding call seen => ∀ held ∈ seen, held.holding.fresh call.now → Backed world call held
  | _ => True

structure Sound (world : World) : Prop where
  cached : ∀ entry ∈ world.gate.cache.entries,
    world.inForce.token = some entry.2.tag ∧ Logged world entry.1 entry.2
  threads : ∀ thread, Fits world (world.threads thread)
  decisions : ∀ decision ∈ world.decisions, Rests decision →
    ∃ seen, decision.seen = some seen ∧ Backed world decision.call seen

theorem fresh_sound (stored : List PolicyRow) (qualified : Address → Feature → Option Anchor)
    (clock : ℚ) : Sound (fresh stored qualified clock) := by
  refine ⟨?_, fun _ => trivial, ?_⟩ <;> simp [fresh, OrderedTable.empty]

theorem Fits.grows (world next : World) (state : Thread) (fits : Fits world state)
    (more : ∀ reply ∈ world.replies, reply ∈ next.replies) : Fits next state := by
  cases state with
  | leading call token at_ cached under =>
    exact ⟨fits.1, fun seen member => ⟨(fits.2 seen member).1, more _ (fits.2 seen member).2⟩⟩
  | replied call token at_ cached under reply =>
    obtain ⟨current, before, answers⟩ := fits
    exact ⟨current, fun seen member => ⟨(before seen member).1, more _ (before seen member).2⟩,
      fun answered member => more _ (answers answered member)⟩
  | deciding call seen =>
    intro held member young
    obtain ⟨current, logged⟩ := fits held member young
    exact ⟨current, more _ logged⟩
  | _ => exact fits

variable (world : World)

theorem Sound.put (sound : Sound world) (thread : Nat) (state : Thread) (fits : Fits world state) :
    Sound (world.put thread state) := by
  refine { sound with threads := ?_ }
  refine (Function.forall_update_iff world.threads fun _ => Fits (world.put thread state)).mpr
    ⟨fits.grows _ _ _ fun _ => id, ?_⟩
  exact fun other _ => (sound.threads other).grows _ _ _ fun _ => id

theorem Sound.caches (sound : Sound world) (policies : Policies) (cache : Cache Address)
    (entries : ∀ entry ∈ cache.entries,
      policies.inForce.token = some entry.2.tag ∧ Logged world entry.1 entry.2) :
    Sound { world with gate := { world.gate with policies := policies, cache := cache } } :=
  ⟨entries, fun thread => (sound.threads thread).grows _ _ _ fun _ => id, sound.decisions⟩

theorem Sound.enters (sound : Sound world) (wallet : Address) (seen : Seen Address)
    (inForce : world.inForce.token = some seen.tag) (logged : Logged world wallet seen)
    (cache : Cache Address)
    (entries : ∀ entry ∈ cache.entries,
      (entry ∈ world.gate.cache.entries ∧ entry.1 ≠ wallet) ∨ entry = (wallet, seen)) :
    Sound { world with gate := { world.gate with cache := cache } } := by
  refine sound.caches world world.gate.policies cache ?_
  intro entry member
  rcases entries entry member with ⟨old, -⟩ | rfl
  · exact sound.cached entry old
  · exact ⟨inForce, logged⟩

theorem Sound.decides (sound : Sound world) (qualified : Address → Feature → Option Anchor)
    (decision : Decision)
    (backed : Rests decision → ∃ seen, decision.seen = some seen ∧ Backed world decision.call seen)
    :
    Sound { world with
      gate := { world.gate with qualified := qualified }
      decisions := world.decisions ++ [decision] } := by
  refine ⟨sound.cached, fun thread => (sound.threads thread).grows _ _ _ fun _ => id, ?_⟩
  intro other member rests
  rcases List.mem_append.mp member with old | new
  · exact sound.decisions other old rests
  · obtain rfl := List.mem_singleton.mp new
    exact backed rests

theorem read_sound (sound : Sound world) (thread : Nat) (now : ℚ) (within : Within) :
    Sound (world.read thread now within) := by
  have read : Sound { world with gate := world.gate.policy now } := by
    refine sound.caches world (world.gate.policies.read now) _ ?_
    intro entry member
    split at member
    · cases member
    · rename_i same
      obtain ⟨current, logged⟩ := sound.cached entry member
      exact ⟨(not_not.mp same).trans current, logged⟩
  refine read.put _ thread _ ?_
  cases within <;> trivial

theorem insert_sound (sound : Sound world) (thread : Nat) (now : ℚ) (request : Request) :
    Sound (world.insert thread now request) := by
  unfold World.insert
  split
  · exact sound.put _ thread _ trivial
  · refine Sound.put _ (sound.caches world _ .empty ?_) thread _ trivial
    intro entry member
    cases member

theorem timed_fits (wallet : Address) (policy : GatePolicy) (now : ℚ) :
    Fits world (timed wallet policy now) := by
  unfold timed
  split
  · intro held member
    cases member
  · rename_i token there
    exact there

theorem look_sound (sound : Sound world) (thread : Nat) (call : Call) (token : Address) (at_ : ℚ)
    (looking : world.threads thread = .looking call token at_)
    (steady : Steady world (thread, .look)) : Sound (world.look thread call token at_) := by
  have current := sound.threads thread
  rw [looking] at current
  simp only [Steady, touched, looking] at steady
  unfold World.look
  cases found : hit world.gate.cache call.wallet at_ with
  | some result =>
    obtain ⟨seen, cache⟩ := result
    obtain ⟨member, -, rfl⟩ := hit_some _ _ _ _ _ found
    have inForce : world.inForce.token = some token :=
      steady (world.inForce.token, token) (by simp [found])
    obtain ⟨tagged, logged⟩ := sound.cached _ member
    have cached := sound.caches world world.gate.policies (world.gate.cache.touch call.wallet)
      fun entry inside => sound.cached entry ((mem_touch _ _ _).mp inside)
    refine cached.put _ thread _ ?_
    rintro held ⟨⟩ -
    exact ⟨current.trans (inForce.symm.trans tagged), logged⟩
  | none =>
    dsimp only
    split
    · exact sound.put _ thread _ current
    · have joined : Sound { world with
          inflight := Function.update world.inflight call.wallet true } :=
        { sound with
          threads := fun other => (sound.threads other).grows _ _ _ fun _ => id }
      refine joined.put _ thread _ ⟨current, ?_⟩
      intro seen there
      exact sound.cached _ ((get_some _ _ _).mp there)

theorem reply_sound (sound : Sound world) (thread : Nat) (call : Call) (token : Address) (at_ : ℚ)
    (cached : Option (Seen Address)) (under : Option Address)
    (leading : world.threads thread = .leading call token at_ cached under) (reply : Option Reply) :
    Sound (world.reply thread call token at_ cached under reply) := by
  obtain ⟨current, before⟩ : Fits world (.leading call token at_ cached under) :=
    leading ▸ sound.threads thread
  have more : ∀ answered : List Observation, ∀ old ∈ world.replies, old ∈ world.replies ++ answered :=
    fun _ _ => List.mem_append_left _
  unfold World.reply
  dsimp only
  refine Sound.put _ ⟨?_, ?_, ?_⟩ thread _ ⟨current, ?_, ?_⟩
  · exact fun entry member => ⟨(sound.cached entry member).1, more _ _ (sound.cached entry member).2⟩
  · exact fun other => (sound.threads other).grows _ _ _ (more _)
  · intro decision member rests
    obtain ⟨seen, same, token, logged⟩ := sound.decisions decision member rests
    exact ⟨seen, same, token, more _ _ logged⟩
  · exact fun seen member => ⟨(before seen member).1, more _ _ (before seen member).2⟩
  · rintro answered ⟨⟩
    exact List.mem_append_right _ List.mem_cons_self

/-- What a leader writes is a balance of its token, in force at that moment; where its fetch
has failed it keeps what it found when it looked. -/
theorem write_sound (sound : Sound world) (thread : Nat) (call : Call) (token : Address) (at_ : ℚ)
    (cached : Option (Seen Address)) (under : Option Address) (reply : Option Reply)
    (replied : world.threads thread = .replied call token at_ cached under reply)
    (steady : Steady world (thread, .write)) :
    Sound (world.write thread call token at_ cached reply) := by
  obtain ⟨current, before, answers⟩ : Fits world (.replied call token at_ cached under reply) :=
    replied ▸ sound.threads thread
  simp only [Steady, replied] at steady
  have ended : Sound { world with inflight := Function.update world.inflight call.wallet false } :=
    { sound with threads := fun other => (sound.threads other).grows _ _ _ fun _ => id }
  unfold World.write
  cases reply with
  | none =>
    refine ended.put _ thread _ ?_
    intro held there young
    obtain ⟨found, -⟩ := Option.mem_filter_iff.mp there
    have inForce : under = some token := by
      refine steady (under, token) ?_
      simp [touched, Option.mem_def.mp there, young]
    obtain ⟨tagged, logged⟩ := before held found
    exact ⟨current.trans (inForce.symm.trans tagged), logged⟩
  | some answered =>
    have inForce : world.inForce.token = some token := steady _ rfl
    have logged := answers answered rfl
    have stored := ended.enters _ call.wallet (fetched call.wallet at_ answered token) inForce
      logged _ fun entry => mem_store world.gate.cache _ _ entry
    refine stored.put _ thread _ (Fits.grows world _ _ ?_ fun _ => id)
    intro held there _
    rw [← Option.some.inj there]
    exact ⟨current, logged⟩

theorem reread_sound (sound : Sound world) (thread : Nat) (call : Call) (token : Address) (at_ : ℚ)
    (waiting : world.threads thread = .waiting call token at_)
    (steady : Steady world (thread, .reread)) : Sound (world.reread thread call at_) := by
  have current := sound.threads thread
  rw [waiting] at current
  simp only [Steady, waiting] at steady
  refine sound.put _ thread _ ?_
  intro held there young
  obtain ⟨found, -⟩ := Option.mem_filter_iff.mp there
  have inForce : world.inForce.token = some token := by
    refine steady (world.inForce.token, token) ?_
    simp [touched, Option.mem_def.mp there, young]
  obtain ⟨tagged, logged⟩ := sound.cached _ ((get_some _ _ _).mp found)
  exact ⟨current.trans (inForce.symm.trans tagged), logged⟩

theorem settle_rests (call : Call) (seen : Option (Seen Address)) (supply : Option Nat)
    (anchors : Feature → Option Anchor)
    (rests : Rests ⟨call, seen,
      (settle call.policy call.wallet (seen.map (withSupply supply)) call.now anchors).1⟩) :
    ∃ held, seen = some held ∧ held.holding.fresh call.now = true := by
  rcases rests with ⟨feature, qualified, positive⟩ | tier
  · obtain ⟨held, same, young, -⟩ := grant_holder _ _ _ _ _ _ _ positive
      ((mem_qualified _ _ _ _).mp qualified).2
    exact ⟨held, same, young⟩
  · exact feeTier_fresh _ _ _ _ tier

theorem decide_sound (sound : Sound world) (thread : Nat) (call : Call)
    (seen : Option (Seen Address)) (deciding : world.threads thread = .deciding call seen)
    (supply : Option Nat) : Sound (world.decide thread call seen supply) := by
  have fits : Fits world (.deciding call seen) := deciding ▸ sound.threads thread
  refine (sound.decides _ _ _ ?_).put _ thread (.entitled _) trivial
  intro rests
  obtain ⟨held, same, young⟩ := settle_rests _ _ _ _ rests
  exact ⟨held, same, fits held same young⟩

theorem act_sound (owner : Option Address) (world next : World) (sound : Sound world)
    (thread : Nat) (action : Action) (steady : Steady world (thread, action))
    (taken : act owner world thread action (world.threads thread) = some next) : Sound next := by
  unfold act at taken
  split at taken
  case h_1 =>
    split at taken
    · obtain rfl := Option.some.inj taken
      exact { sound with
        threads := fun other => (sound.threads other).grows _ _ _ fun _ => id }
    · cases taken
  case h_2 row =>
    split at taken
    · cases taken
    · obtain rfl := Option.some.inj taken
      exact sound.caches world (world.gate.policies.insert row) world.gate.cache sound.cached
  case h_3 =>
    obtain rfl := Option.some.inj taken
    exact sound.put _ thread _ trivial
  case h_4 =>
    obtain rfl := Option.some.inj taken
    refine sound.put _ thread _ ?_
    unfold applies
    split <;> trivial
  case h_5 =>
    obtain rfl := Option.some.inj taken
    exact sound.put _ thread _ trivial
  case h_6 now within _ =>
    obtain rfl := Option.some.inj taken
    exact read_sound world sound thread now within
  case h_7 =>
    obtain rfl := Option.some.inj taken
    refine sound.put _ thread _ ?_
    unfold checked
    split <;> trivial
  case h_8 now request _ =>
    obtain rfl := Option.some.inj taken
    exact insert_sound world sound thread now request
  case h_9 wallet policy _ =>
    obtain rfl := Option.some.inj taken
    exact sound.put _ thread _ (timed_fits world wallet policy world.clock)
  case h_10 call token observing =>
    obtain rfl := Option.some.inj taken
    have current : Fits world (.observing call token) := observing ▸ sound.threads thread
    exact sound.put _ thread (.looking call token world.clock) current
  case h_11 call token at_ looking =>
    obtain rfl := Option.some.inj taken
    exact look_sound world sound thread call token at_ looking steady
  case h_12 reply call token at_ cached under leading =>
    obtain rfl := Option.some.inj taken
    exact reply_sound world sound thread call token at_ cached under leading reply
  case h_13 call token at_ cached under reply replied =>
    obtain rfl := Option.some.inj taken
    exact write_sound world sound thread call token at_ cached under reply replied steady
  case h_14 call token at_ waiting =>
    obtain rfl := Option.some.inj taken
    exact reread_sound world sound thread call token at_ waiting steady
  case h_15 supply call seen deciding =>
    obtain rfl := Option.some.inj taken
    exact decide_sound world sound thread call seen deciding supply
  case h_16 => cases taken

/-- While the cache is used under the token of the call only, what an entitlement gives for a
fresh holding rests on a reply for the token of its policy. -/
theorem decisions_current (owner : Option Address) (world : World)
    (reached : (oracleRuns owner).Reaches Steady world) :
    ∀ decision ∈ world.decisions, Rests decision → ∃ seen, decision.seen = some seen ∧
      decision.call.policy.token = some seen.tag ∧
      ⟨decision.call.wallet, seen.tag, seen.holding.balanceRaw, seen.holding.observedAt⟩ ∈
        world.replies := by
  have sound : Sound world := by
    refine System.Reaches.invariant Sound ?_ ?_ world reached
    · rintro _ ⟨stored, qualified, clock, rfl⟩
      exact fresh_sound stored qualified clock
    · intro world turn next sound steady taken
      exact act_sound owner world next sound turn.1 turn.2 steady taken
  exact sound.decisions

instance (decision : Decision) : Decidable (Rests decision) :=
  inferInstanceAs (Decidable ((∃ feature ∈ _, _) ∨ _))

def samplePolicy (version : Nat) (token : Address) : GatePolicy :=
  { UNSET_POLICY with version := version, token := some token, threshold := fun _ => 50 }

def sampleFresh : World := fresh [⟨samplePolicy 1 7, "signed"⟩] (fun _ _ => none) 0

def sampleLook (thread : Nat) : List (Nat × Action) :=
  [.entitlement 9, .read, .time, .time, .look].map (thread, ·)

def sampleTurns : List (Nat × Action) :=
  sampleLook 0 ++ [(0, .reply (some ⟨100, 1⟩)), (0, .write), (0, .decide none)] ++
    sampleLook 1 ++ [(1, .decide none)]

theorem sampleTurns_taken : ((oracleRuns (some 5)).run sampleFresh sampleTurns).isSome := by
  decide +kernel

def sampleWorld : World := ((oracleRuns (some 5)).run sampleFresh sampleTurns).get sampleTurns_taken

theorem sampleFresh_reached (meets : World → Nat × Action → Prop) :
    (oracleRuns (some 5)).Reaches meets sampleFresh :=
  .start _ ⟨_, _, _, rfl⟩

theorem decisions_current_sample :
    sampleWorld.decisions.length = 2 ∧ ∀ decision ∈ sampleWorld.decisions, Rests decision ∧
      ∃ seen, decision.seen = some seen ∧ decision.call.policy.token = some seen.tag := by
  have reached : (oracleRuns (some 5)).Reaches Steady sampleWorld :=
    (sampleFresh_reached Steady).run _ _ sampleTurns (by decide +kernel) (Option.some_get _).symm
  have rest : ∀ decision ∈ sampleWorld.decisions, Rests decision := by decide +kernel
  refine ⟨by decide +kernel, ?_⟩
  intro decision member
  obtain ⟨seen, same, token, -⟩ :=
    decisions_current (some 5) sampleWorld reached decision member (rest decision member)
  exact ⟨rest decision member, seen, same, token⟩

def sampleRace : List (Nat × Action) :=
  sampleLook 0 ++
    [(1, .apply ⟨samplePolicy 2 8, "signed", .ok 5⟩), (1, .call), (1, .read), (1, .check),
      (1, .insert), (0, .reply (some ⟨100, 1⟩)), (0, .write)] ++
    sampleLook 2 ++ [(2, .decide none)]

theorem sampleRace_taken : ((oracleRuns (some 5)).run sampleFresh sampleRace).isSome := by
  decide +kernel

def sampleRaced : World := ((oracleRuns (some 5)).run sampleFresh sampleRace).get sampleRace_taken

/-- Under the policy of token 8 a feature is granted for a balance of token 7. -/
theorem sampleRaced_stale :
    (oracleRuns (some 5)).Reaches always sampleRaced ∧
      ∃ decision ∈ sampleRaced.decisions, Rests decision ∧ decision.call.policy.token = some 8 ∧
        decision.seen.map Seen.tag = some 7 ∧ ∀ reply ∈ sampleRaced.replies, reply.token ≠ 8 := by
  have reached := (sampleFresh_reached always).run _ sampleRaced sampleRace
    (System.runMeets_always _ _) (Option.some_get _).symm
  exact ⟨reached, by decide +kernel⟩

end RhPools.GateOracle
