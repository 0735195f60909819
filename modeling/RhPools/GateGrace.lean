import RhPools.LpGate
import RhPools.GuardedRuns

/-! Grace of the holder gate over whole runs of its calls, each taken at one moment.
A log of all successful balance replies stands beside the state. Every remembered
holding is the latest reply of its wallet, and every anchor of the policy in force
names a reply that no later one of the wallet contradicts. -/

namespace RhPools.GateGrace
open TxChain OrderedTables LpGate GuardedRuns

/-- The gate with its clock, the log of replies, and which reply was used by a call
under which policy version. Holdings are tagged with their place in the log. -/
structure World where
  gate : Gate Nat
  clock : ℚ
  log : List Observation
  used : List (Nat × Nat)

def World.inForce (world : World) : GatePolicy := world.gate.policies.inForce

def World.fetches (world : World) (token wallet : Address) (now : ℚ) (reply : Reply) :
    Seen Nat × World :=
  let seen := fetched wallet now reply world.log.length
  (seen, { world with
    gate := { world.gate with cache := LpGate.store world.gate.cache wallet seen }
    log := world.log ++ [⟨wallet, token, reply.balance, now⟩] })

/-- The answer of the oracle: from the cache, from the node, or what is still usable. -/
def observe (world : World) (token wallet : Address) (now : ℚ) (reply : Option Reply) :
    Option (Seen Nat) × World :=
  match hit world.gate.cache wallet now with
  | some (seen, cache) => (some seen, { world with gate := { world.gate with cache := cache } })
  | none =>
    match reply with
    | none => (usable (world.gate.cache.get wallet) now world.inForce.graceS, world)
    | some reply =>
      let fetched := world.fetches token wallet now reply
      (some fetched.1, fetched.2)

def World.reads (world : World) (now : ℚ) : World :=
  { world with gate := world.gate.policy now, clock := now }

def World.observes (world : World) (wallet : Address) (reply : Option Reply) :
    Option (Seen Nat) × World :=
  match world.inForce.token with
  | none => (none, world)
  | some token => observe world token wallet world.clock reply

def World.settles (world : World) (wallet : Address) (seen : Option (Seen Nat))
    (supply : Option Nat) : Entitlement × World :=
  let settled := settle world.inForce wallet (seen.map (withSupply supply)) world.clock
    (world.gate.qualified wallet)
  (settled.1, { world with
    gate := { world.gate with qualified := Function.update world.gate.qualified wallet settled.2 }
    used := (seen.map fun seen => (seen.tag, world.inForce.version)).toList ++ world.used })

/-- `Gate.entitlement` as one step, with what the node and the supply cache answer. -/
def entitlement (world : World) (wallet : Address) (now : ℚ) (reply : Option Reply)
    (supply : Option Nat) : Entitlement × World :=
  let observed := (world.reads now).observes wallet reply
  observed.2.settles wallet observed.1 supply

/-- `Gate.apply_policy` as one step. -/
def applyPolicy (owner : Option Address) (world : World) (request : Request) (now : ℚ) :
    Applied × World :=
  match signerRefusal owner request with
  | some refused => (refused, { world with clock := now })
  | none =>
    let world := world.reads now
    let policies := world.gate.policies
    match answer policies policies.inForce request now with
    | some answered => (answered, world)
    | none =>
      if policies.holds request.policy.version then (.integrity, world)
      else (.accepted request.policy, { world with gate :=
        { world.gate with
          policies := policies.publish ⟨request.policy, request.signature⟩ now
          cache := .empty } })

inductive Action where
  | entitlement (wallet : Address) (reply : Option Reply) (supply : Option Nat)
  | policy
  | apply (request : Request)
  /-- A row that another process writes into the database. -/
  | stored (row : PolicyRow)

def act (owner : Option Address) (world : World) (now : ℚ) : Action → Option World
  | .entitlement wallet reply supply => some (entitlement world wallet now reply supply).2
  | .policy => some (world.reads now)
  | .apply request => some (applyPolicy owner world request now).2
  | .stored row =>
    if 0 < row.policy.version ∧ world.gate.policies.holds row.policy.version = false then
      some { world with
        clock := now
        gate := { world.gate with policies := world.gate.policies.insert row } }
    else none

def fresh (clock : ℚ) : World :=
  { gate := ⟨⟨[], UNSET_POLICY, none⟩, .empty, fun _ _ => none⟩, clock := clock, log := [], used := [] }

def gateRuns (owner : Option Address) : System World (ℚ × Action) where
  start world := ∃ clock, world = fresh clock
  step world call := if world.clock ≤ call.1 then act owner world call.1 call.2 else none

/-- The holding is the reply its tag names, of the wallet and the token in force, and no
later reply of the wallet is in the log. -/
structure Backed (policy : GatePolicy) (log : List Observation) (wallet : Address)
    (seen : Seen Nat) (reply : Observation) : Prop where
  logged : log[seen.tag]? = some reply
  mine : reply.wallet = wallet
  token : policy.token = some reply.token
  balance : reply.balance = seen.holding.balanceRaw
  at_ : reply.at_ = seen.holding.observedAt
  last : ∀ later, seen.tag < later → ∀ other ∈ log[later]?, other.wallet ≠ wallet

/-- Reply number `number` is one of the wallet, made or reused under the policy, that
reaches the threshold of the feature. -/
structure Reaches (policy : GatePolicy) (log : List Observation) (used : List (Nat × Nat))
    (wallet : Address) (feature : Feature) (number : Nat) (reply : Observation) : Prop where
  logged : log[number]? = some reply
  mine : reply.wallet = wallet
  token : policy.token = some reply.token
  enough : policy.threshold feature ≤ reply.balance
  used : (number, policy.version) ∈ used

def NeverBelow (policy : GatePolicy) (log : List Observation) (wallet : Address)
    (feature : Feature) (number : Nat) : Prop :=
  ∀ later, number < later → ∀ other ∈ log[later]?, other.wallet = wallet →
    policy.threshold feature ≤ other.balance

def Anchored (policy : GatePolicy) (log : List Observation) (used : List (Nat × Nat))
    (wallet : Address) (feature : Feature) (anchor : Anchor) : Prop :=
  anchor.policyVersion ≤ policy.version ∧
  (anchor.policyVersion = policy.version → ∃ number reply,
    Reaches policy log used wallet feature number reply ∧ reply.at_ = anchor.lastOkAt ∧
      NeverBelow policy log wallet feature number)

structure Sound (world : World) : Prop where
  policies : world.gate.policies.Kept
  times : ∀ reply ∈ world.log, reply.at_ ≤ world.clock
  cached : ∀ entry ∈ world.gate.cache.entries,
    ∃ reply, Backed world.inForce world.log entry.1 entry.2 reply
  anchors : ∀ wallet feature anchor, world.gate.qualified wallet feature = some anchor →
    Anchored world.inForce world.log world.used wallet feature anchor

theorem fresh_sound (clock : ℚ) : Sound (fresh clock) :=
  ⟨⟨List.nodup_nil, by simp [fresh], Or.inl rfl⟩, by simp [fresh],
    by simp [fresh, OrderedTable.empty], by simp [fresh]⟩

theorem Anchored.changes (policy next : GatePolicy) (log : List Observation)
    (used : List (Nat × Nat)) (wallet : Address) (feature : Feature) (anchor : Anchor)
    (newer : next = policy ∨ policy.version < next.version)
    (anchored : Anchored policy log used wallet feature anchor) :
    Anchored next log used wallet feature anchor := by
  rcases newer with rfl | above
  · exact anchored
  · refine ⟨(anchored.1.trans_lt above).le, ?_⟩
    intro version
    exact absurd (version ▸ anchored.1) (Nat.not_le_of_lt above)

variable (policy : GatePolicy) (owner : Option Address) (world : World)

/-- A policy that is the same or newer keeps what stands, when the cache has been emptied
on a change of the token. -/
theorem Sound.changes (sound : Sound world) (now : ℚ) (later : world.clock ≤ now)
    (policies : Policies) (cache : Cache Nat) (kept : policies.Kept)
    (newer : policies.inForce = world.inForce ∨ world.inForce.version < policies.inForce.version)
    (part : ∀ entry ∈ cache.entries, entry ∈ world.gate.cache.entries ∧
      policies.inForce.token = world.inForce.token) :
    Sound { world with
      clock := now, gate := { world.gate with policies := policies, cache := cache } } := by
  refine ⟨kept, fun reply member => (sound.times reply member).trans later, ?_, ?_⟩
  · intro entry member
    obtain ⟨old, token⟩ := part entry member
    obtain ⟨reply, backed⟩ := sound.cached entry old
    exact ⟨reply, { backed with token := token.trans backed.token }⟩
  · intro wallet feature anchor there
    exact (sound.anchors wallet feature anchor there).changes _ _ _ _ _ _ _ newer

theorem reads_sound (sound : Sound world) (now : ℚ) (later : world.clock ≤ now) :
    Sound (world.reads now) := by
  obtain ⟨kept, newer⟩ := sound.policies.read world.gate.policies now
  refine sound.changes world now later _ _ kept newer ?_
  intro entry member
  split at member
  · cases member
  · rename_i same
    exact ⟨member, not_not.mp same⟩

theorem apply_sound (sound : Sound world) (request : Request) (now : ℚ) (later : world.clock ≤ now)
    :
    Sound (applyPolicy owner world request now).2 := by
  unfold applyPolicy
  split
  · exact sound.changes world now later world.gate.policies world.gate.cache sound.policies
      (Or.inl rfl) fun entry member => ⟨member, rfl⟩
  · have read := reads_sound world sound now later
    dsimp only
    split
    · exact read
    · rename_i unanswered
      split
      · exact read
      · rename_i absent
        have above := answer_none _ _ _ _ unanswered
        refine read.changes _ now (le_refl now) _ _ (read.policies.publish _ _ now ?_ ?_)
          (Or.inr above) ?_
        · simpa using absent
        · exact (Nat.zero_le _).trans_lt above
        · intro entry member
          cases member

theorem observe_cases (token wallet : Address) (now : ℚ) (reply : Option Reply) :
    (∃ seen, (wallet, seen) ∈ world.gate.cache.entries ∧
      observe world token wallet now reply = (some seen, { world with
        gate := { world.gate with cache := world.gate.cache.touch wallet } })) ∨
    (∃ answered, observe world token wallet now reply =
      (some (world.fetches token wallet now answered).1,
        (world.fetches token wallet now answered).2)) ∨
    ∃ seen, observe world token wallet now reply = (seen, world) ∧
      ∀ held ∈ seen, (wallet, held) ∈ world.gate.cache.entries ∧ held.holding.fresh now = false := by
  unfold observe
  cases found : hit world.gate.cache wallet now with
  | some result =>
    obtain ⟨seen, after⟩ := result
    obtain ⟨member, -, rfl⟩ := hit_some _ _ _ _ _ found
    exact Or.inl ⟨seen, member, rfl⟩
  | none =>
    cases reply with
    | some answered => exact Or.inr (Or.inl ⟨answered, rfl⟩)
    | none =>
      refine Or.inr (Or.inr ⟨_, rfl, ?_⟩)
      intro held there
      obtain ⟨cached, -⟩ := Option.mem_filter_iff.mp there
      exact ⟨(get_some _ _ _).mp cached, hit_none _ _ _ _ found cached⟩

/-- The world between the oracle and the anchors: the holding of the call is backed, and
what was logged in between is the reply the holding rests on. -/
structure Observed (world next : World) (wallet : Address) (seen : Option (Seen Nat)) : Prop where
  policies : next.gate.policies = world.gate.policies
  qualified : next.gate.qualified = world.gate.qualified
  clock : next.clock = world.clock
  used : next.used = world.used
  times : ∀ reply ∈ next.log, reply.at_ ≤ world.clock
  cached : ∀ entry ∈ next.gate.cache.entries,
    ∃ reply, Backed world.inForce next.log entry.1 entry.2 reply
  backed : ∀ held ∈ seen, ∃ reply, Backed world.inForce next.log wallet held reply
  grows : next.log = world.log ∨ ∃ reply held, next.log = world.log ++ [reply] ∧
    reply.wallet = wallet ∧ seen = some held ∧ held.holding.fresh world.clock = true ∧
      held.holding.balanceRaw = reply.balance

theorem getElem?_logged (log : List Observation) (reply other : Observation) (number : Nat) :
    (log ++ [reply])[number]? = some other ↔
      log[number]? = some other ∨ number = log.length ∧ reply = other := by
  rcases Nat.lt_trichotomy number log.length with below | rfl | above
  · simp [List.getElem?_append_left below, below.ne]
  · simp
  · have past : log.length ≤ number := above.le
    simp [List.getElem?_append_right past, List.getElem?_eq_none past, above.ne',
      Nat.sub_ne_zero_of_lt above]

theorem logged_observed (sound : Sound world) (wallet : Address) (reply : Observation)
    (held : Seen Nat) (cache : Cache Nat)
    (entries : ∀ entry ∈ cache.entries,
      (entry ∈ world.gate.cache.entries ∧ entry.1 ≠ wallet) ∨ entry = (wallet, held))
    (now : reply.at_ = world.clock) (young : held.holding.fresh world.clock = true)
    (backed : Backed world.inForce (world.log ++ [reply]) wallet held reply) :
    Observed world { world with
      gate := { world.gate with cache := cache }, log := world.log ++ [reply] } wallet
      (some held) := by
  refine ⟨rfl, rfl, rfl, rfl, ?_, ?_, ?_,
    Or.inr ⟨reply, held, rfl, backed.mine, rfl, young, backed.balance.symm⟩⟩
  · intro other member
    rcases List.mem_append.mp member with old | new
    · exact sound.times other old
    · rw [List.mem_singleton.mp new, now]
  · intro entry member
    rcases entries entry member with ⟨old, apart⟩ | same
    · obtain ⟨observed, before⟩ := sound.cached entry old
      refine ⟨observed, { before with
        logged := (getElem?_logged _ _ _ _).mpr (Or.inl before.logged), last := ?_ }⟩
      intro later above other there
      rcases (getElem?_logged _ _ _ _).mp there with earlier | ⟨-, same⟩
      · exact before.last later above other earlier
      · rw [← same, backed.mine]
        exact apart.symm
    · rw [same]
      exact ⟨reply, backed⟩
  · intro other there
    rw [← Option.some.inj there]
    exact ⟨reply, backed⟩

theorem fetched_fresh (wallet : Address) (now : ℚ) (reply : Reply) (tag : Nat) :
    (fetched wallet now reply tag).holding.fresh now = true := by
  simp [fetched, Holding.fresh, ORACLE_TTL_S]

theorem fetches_observed (sound : Sound world) (token wallet : Address)
    (inForce : world.inForce.token = some token) (reply : Reply) :
    Observed world (world.fetches token wallet world.clock reply).2 wallet
      (some (world.fetches token wallet world.clock reply).1) := by
  refine logged_observed world sound wallet ⟨wallet, token, reply.balance, world.clock⟩ _ _
    (fun entry member => mem_store _ _ _ _ member) rfl (fetched_fresh _ _ _ _) ?_
  refine ⟨(getElem?_logged _ _ _ _).mpr (Or.inr ⟨rfl, rfl⟩), rfl, inForce, rfl, rfl, ?_⟩
  intro later above other there
  have inside := (List.getElem?_eq_some_iff.mp there).1
  have past : world.log.length < later := above
  simp only [List.length_append, List.length_singleton] at inside
  omega

theorem observes_observed (sound : Sound world) (wallet : Address) (reply : Option Reply) :
    Observed world (world.observes wallet reply).2 wallet (world.observes wallet reply).1 := by
  unfold World.observes
  split
  · exact ⟨rfl, rfl, rfl, rfl, sound.times, sound.cached, by simp, Or.inl rfl⟩
  · rename_i token inForce
    rcases observe_cases world token wallet world.clock reply with
      ⟨seen, member, same⟩ | ⟨answered, same⟩ | ⟨seen, same, cached⟩
    · rw [same]
      refine ⟨rfl, rfl, rfl, rfl, sound.times, ?_, ?_, Or.inl rfl⟩
      · intro entry inside
        exact sound.cached entry ((mem_touch _ _ _).mp inside)
      · rintro held ⟨⟩
        exact sound.cached _ member
    · rw [same]
      exact fetches_observed world sound token wallet inForce answered
    · rw [same]
      refine ⟨rfl, rfl, rfl, rfl, sound.times, sound.cached, ?_, Or.inl rfl⟩
      intro held there
      exact sound.cached _ (cached held there).1

theorem Anchored.grows (log next : List Observation) (used more : List (Nat × Nat))
    (wallet : Address) (feature : Feature) (anchor : Anchor)
    (anchored : Anchored policy log used wallet feature anchor) (uses : ∀ use ∈ used, use ∈ more)
    (grown : next = log ∨ ∃ reply, next = log ++ [reply] ∧
      (reply.wallet = wallet → policy.threshold feature ≤ reply.balance)) :
    Anchored policy next more wallet feature anchor := by
  refine ⟨anchored.1, ?_⟩
  intro version
  obtain ⟨number, observed, reaches, time, steady⟩ := anchored.2 version
  refine ⟨number, observed, { reaches with logged := ?_, used := uses _ reaches.used }, time, ?_⟩
  · rcases grown with rfl | ⟨reply, rfl, -⟩
    · exact reaches.logged
    · exact (getElem?_logged _ _ _ _).mpr (Or.inl reaches.logged)
  · intro later above other there mine
    rcases grown with rfl | ⟨reply, rfl, enough⟩
    · exact steady later above other there mine
    · rcases (getElem?_logged _ _ _ _).mp there with before | ⟨-, same⟩
      · exact steady later above other before mine
      · rw [same] at enough
        exact enough mine

theorem grant_grace (state : HoldingState) (now until_ : ℚ) (feature : Feature)
    (grace : grant policy state now feature = .grace until_) :
    ∃ anchor, state.lastOk feature = some anchor ∧ anchor.policyVersion = policy.version ∧
      now - anchor.lastOkAt ≤ policy.graceS := by
  unfold grant at grace
  dsimp only at grace
  split at grace
  · cases grace
  · split at grace
    · cases grace
    · rename_i anchor there
      split at grace
      · rename_i within
        exact ⟨anchor, there, within.2⟩
      · cases grace

theorem keptAnchors_some (now : ℚ) (feature : Feature) (seen : Option (Seen Nat))
    (supply : Option Nat) (anchors : Feature → Option Anchor) (anchor : Anchor)
    (kept : keptAnchors policy (seen.map (withSupply supply)) now anchors feature = some anchor) :
    anchors feature = some anchor ∧ ∀ held ∈ seen, held.holding.fresh now = true →
      policy.threshold feature ≤ held.holding.balanceRaw := by
  unfold keptAnchors at kept
  split at kept
  · cases kept
  · rename_i stays
    refine ⟨kept, ?_⟩
    rintro held there young
    by_contra below
    refine stays ?_
    have under := Nat.lt_of_not_le below
    simp only [dropped, freshBalance, Option.mem_def.mp there, Option.map_some, Option.any_some,
      Bool.and_eq_true, decide_eq_true_eq]
    exact ⟨(Nat.zero_le _).trans_lt under, young, under⟩

/-- What `settle` leaves as anchor: the fresh balance of the call, or what was kept. -/
theorem settle_cases (wallet : Address) (now : ℚ) (feature : Feature) (seen : Option (Seen Nat))
    (supply : Option Nat) (anchors : Feature → Option Anchor) (anchor : Anchor)
    (left : (settle policy wallet (seen.map (withSupply supply)) now anchors).2 feature =
      some anchor) :
    (∃ held, seen = some held ∧ anchor = ⟨held.holding.observedAt, policy.version⟩ ∧
      policy.threshold feature ≤ held.holding.balanceRaw) ∨
    keptAnchors policy (seen.map (withSupply supply)) now anchors feature = some anchor := by
  cases seen with
  | none => exact Or.inr left
  | some held =>
    simp only [settle, Option.map_some] at left
    split at left
    · rename_i moved
      obtain ⟨qualified, positive, -⟩ := moved
      obtain ⟨same, there, -, enough⟩ := grant_holder policy wallet now feature (some held)
        supply _ positive ((mem_qualified _ _ _ _).mp qualified).2
      cases there
      exact Or.inl ⟨held, rfl, (Option.some.inj left).symm, enough⟩
    · exact Or.inr left

theorem Backed.reaches (log : List Observation) (used : List (Nat × Nat)) (wallet : Address)
    (seen : Seen Nat) (reply : Observation) (feature : Feature)
    (backed : Backed policy log wallet seen reply)
    (enough : policy.threshold feature ≤ seen.holding.balanceRaw)
    (use : (seen.tag, policy.version) ∈ used) :
    Reaches policy log used wallet feature seen.tag reply :=
  ⟨backed.logged, backed.mine, backed.token, backed.balance ▸ enough, use⟩

theorem Observed.inForce (world next : World) (wallet : Address) (seen : Option (Seen Nat))
    (observed : Observed world next wallet seen) : next.inForce = world.inForce :=
  congrArg Policies.inForce observed.policies

theorem settles_sound (world next : World) (sound : Sound world) (wallet : Address)
    (seen : Option (Seen Nat)) (observed : Observed world next wallet seen)
    (supply : Option Nat) : Sound (next.settles wallet seen supply).2 := by
  have policy := observed.inForce
  have uses : ∀ use ∈ world.used, use ∈ (next.settles wallet seen supply).2.used := by
    intro use member
    exact List.mem_append_right _ (observed.used ▸ member)
  refine ⟨?_, ?_, ?_, ?_⟩
  · exact observed.policies ▸ sound.policies
  · intro reply member
    exact (observed.times reply member).trans_eq observed.clock.symm
  · intro entry member
    obtain ⟨reply, backed⟩ := observed.cached entry member
    exact ⟨reply, policy.symm ▸ backed⟩
  intro other feature anchor there
  change Anchored next.inForce next.log _ other feature anchor
  rw [policy]
  by_cases mine : other = wallet
  · subst mine
    simp only [World.settles, Function.update_self, policy, observed.clock,
      observed.qualified] at there
    rcases settle_cases _ _ _ _ _ _ _ _ there with ⟨held, same, rfl, enough⟩ | kept
    · obtain ⟨reply, backed⟩ := observed.backed held same
      refine ⟨le_refl _, fun _ => ⟨held.tag, reply, ?_, backed.at_, ?_⟩⟩
      · refine backed.reaches _ _ _ _ _ _ _ enough (List.mem_append_left _ ?_)
        simp [same, policy]
      · intro later above last inside twin
        exact absurd twin (backed.last later above last inside)
    · obtain ⟨before, enough⟩ := keptAnchors_some _ _ _ _ _ _ _ kept
      refine (sound.anchors other feature anchor before).grows _ _ _ _ _ _ _ _ uses ?_
      rcases observed.grows with still | ⟨reply, held, grown, -, same, young, balance⟩
      · exact Or.inl still
      · exact Or.inr ⟨reply, grown, fun _ => balance ▸ enough held same young⟩
  · have before : world.gate.qualified other feature = some anchor := by
      simpa [World.settles, Function.update_of_ne mine, observed.qualified] using there
    refine (sound.anchors other feature anchor before).grows _ _ _ _ _ _ _ _ uses ?_
    rcases observed.grows with still | ⟨reply, held, grown, owner, -⟩
    · exact Or.inl still
    · exact Or.inr ⟨reply, grown, fun twin => absurd (twin.symm.trans owner) mine⟩

theorem entitlement_sound (sound : Sound world) (wallet : Address) (now : ℚ)
    (later : world.clock ≤ now) (reply : Option Reply) (supply : Option Nat) :
    Sound (entitlement world wallet now reply supply).2 := by
  have read := reads_sound world sound now later
  exact settles_sound _ _ read wallet _ (observes_observed _ read wallet reply) supply

theorem settles_earned (world next : World) (sound : Sound world) (wallet : Address)
    (seen : Option (Seen Nat)) (observed : Observed world next wallet seen)
    (supply : Option Nat) (feature : Feature)
    (granted : feature ∈ (next.settles wallet seen supply).1.features)
    (positive : 0 < next.inForce.threshold feature) :
    ∃ number reply, Reaches next.inForce next.log (next.settles wallet seen supply).2.used wallet
        feature number reply ∧ reply.at_ ≤ next.clock ∧
      (next.clock - reply.at_ < ORACLE_TTL_S ∨ next.clock - reply.at_ ≤ next.inForce.graceS ∧
        NeverBelow next.inForce next.log wallet feature number) := by
  have after := settles_sound world next sound wallet seen observed supply
  obtain ⟨-, given⟩ := (mem_features _ _ _ _).mp granted
  cases turn : grant next.inForce ⟨wallet, seen.map (withSupply supply),
      keptAnchors next.inForce (seen.map (withSupply supply)) next.clock
        (next.gate.qualified wallet)⟩ next.clock feature with
  | refused => exact absurd turn given
  | holder =>
    obtain ⟨held, rfl, young, enough⟩ := grant_holder _ _ _ _ _ _ _ positive turn
    obtain ⟨reply, backed⟩ := observed.backed held rfl
    rw [← observed.inForce] at backed
    refine ⟨held.tag, reply, backed.reaches _ _ _ _ _ _ _ enough List.mem_cons_self, ?_, Or.inl ?_⟩
    · exact (observed.times reply (List.mem_of_getElem? backed.logged)).trans_eq
        observed.clock.symm
    · simpa [Holding.fresh, backed.at_] using young
  | grace until_ =>
    obtain ⟨anchor, kept, version, within⟩ := grant_grace _ _ _ _ _ turn
    have left : (next.settles wallet seen supply).2.gate.qualified wallet feature =
        some anchor := by
      simp only [World.settles, Function.update_self, settle, mem_qualified, turn]
      cases seen <;> simpa using kept
    obtain ⟨-, anchored⟩ := after.anchors wallet feature anchor left
    obtain ⟨number, reply, reaches, time, steady⟩ := anchored version
    refine ⟨number, reply, reaches, ?_, Or.inr ⟨time ▸ within, steady⟩⟩
    exact after.times reply (List.mem_of_getElem? reaches.logged)

theorem act_sound (world next : World) (now : ℚ) (action : Action) (sound : Sound world)
    (later : world.clock ≤ now) (taken : act owner world now action = some next) : Sound next := by
  cases action with
  | entitlement wallet reply supply =>
    obtain rfl := Option.some.inj taken
    exact entitlement_sound world sound wallet now later reply supply
  | policy =>
    obtain rfl := Option.some.inj taken
    exact reads_sound world sound now later
  | apply request =>
    obtain rfl := Option.some.inj taken
    exact apply_sound owner world sound request now later
  | stored row =>
    simp only [act] at taken
    split at taken
    · rename_i fits
      obtain rfl := Option.some.inj taken
      refine sound.changes world now later _ world.gate.cache ?_ (Or.inl rfl)
        fun entry member => ⟨member, rfl⟩
      exact sound.policies.insert world.gate.policies row fits.2 fits.1
    · cases taken

theorem reached_sound (reached : (gateRuns owner).Reaches always world) : Sound world := by
  refine System.Reaches.invariant Sound ?_ ?_ world reached
  · rintro _ ⟨clock, rfl⟩
    exact fresh_sound clock
  · intro world call next sound _ taken
    simp only [gateRuns] at taken
    split at taken
    · rename_i later
      exact act_sound owner world next call.1 call.2 sound later taken
    · cases taken

/-- A feature with a positive threshold is granted only on a balance of the wallet that
reaches it, used under the version in force: seen less than `ORACLE_TTL_S` ago, or within
the grace of the policy and with no lower balance since. -/
theorem entitlement_earned (owner : Option Address) (world : World)
    (reached : (gateRuns owner).Reaches always world) (wallet : Address) (now : ℚ)
    (later : world.clock ≤ now) (reply : Option Reply) (supply : Option Nat) (feature : Feature)
    (granted : feature ∈ (entitlement world wallet now reply supply).1.features) :
    let after := (entitlement world wallet now reply supply).2
    (entitlement world wallet now reply supply).1.policyVersion = after.inForce.version ∧
    (0 < after.inForce.threshold feature → ∃ number observed,
      Reaches after.inForce after.log after.used wallet feature number observed ∧
        observed.at_ ≤ now ∧
        (now - observed.at_ < ORACLE_TTL_S ∨
          now - observed.at_ ≤ after.inForce.graceS ∧
            NeverBelow after.inForce after.log wallet feature number)) := by
  intro after
  have read := reads_sound world (reached_sound owner world reached) now later
  have observed := observes_observed (world.reads now) read wallet reply
  refine ⟨rfl, ?_⟩
  intro positive
  obtain ⟨number, seen, reaches, time, rest⟩ :=
    settles_earned _ _ read wallet _ observed supply feature granted positive
  rw [observed.clock] at time rest
  exact ⟨number, seen, reaches, time, rest⟩

def samplePolicy : GatePolicy :=
  { UNSET_POLICY with version := 1, token := some 7, threshold := fun _ => 50, graceS := 60 }

def sampleStored : World :=
  { fresh 0 with gate := ⟨⟨[⟨samplePolicy, "signed"⟩], UNSET_POLICY, none⟩, .empty, fun _ _ => none⟩ }

def sampleQualified : World := (entitlement sampleStored 9 0 (some ⟨100, 1⟩) none).2

theorem reached_acts (world next : World) (now : ℚ) (action : Action)
    (reached : (gateRuns owner).Reaches always world) (later : world.clock ≤ now)
    (taken : act owner world now action = some next) : (gateRuns owner).Reaches always next :=
  .step world next (now, action) reached trivial ((if_pos later).trans taken)

theorem sampleQualified_reached : (gateRuns none).Reaches always sampleQualified := by
  have fits : act none (fresh 0) 0 (.stored ⟨samplePolicy, "signed"⟩) = some sampleStored := by
    rw [act, if_pos (by decide)]
    rfl
  have stored := reached_acts none (fresh 0) sampleStored 0 _ (.start _ ⟨0, rfl⟩) (le_refl _) fits
  exact reached_acts none sampleStored _ 0 (.entitlement 9 (some ⟨100, 1⟩) none) stored
    (le_refl _) rfl

/-- Forty seconds later the node is silent, and the grace rests on the first call. -/
theorem entitlement_earned_sample :
    let call := entitlement sampleQualified 9 40 none none
    call.1.graceUntil = FEATURES.map (·, 60) ∧
    ∃ number observed, Reaches call.2.inForce call.2.log call.2.used 9 .trade number observed ∧
      observed.at_ ≤ 40 ∧
      (40 - observed.at_ < ORACLE_TTL_S ∨ 40 - observed.at_ ≤ call.2.inForce.graceS ∧
        NeverBelow call.2.inForce call.2.log 9 .trade number) := by
  intro call
  refine ⟨by decide +kernel, ?_⟩
  have granted : Feature.trade ∈ call.1.features := by decide +kernel
  have later : sampleQualified.clock ≤ 40 := by decide +kernel
  obtain ⟨-, earned⟩ := entitlement_earned none sampleQualified sampleQualified_reached 9 40
    later none none .trade granted
  exact earned (by decide +kernel)

end RhPools.GateGrace
