import RhPools.TxChain
import RhPools.OrderedTables

/-! The holder gate without its threads: policies, holdings, what a holding entitles
to, and the single pieces of the balance oracle. Times are rationals. A remembered
holding carries a tag that says where it came from; the code has no such field, and
nothing here reads it. -/

namespace RhPools.LpGate
open TxChain OrderedTables

inductive Feature where
  | trade
  | lp
  | api
  | flags
  deriving DecidableEq, Repr

def FEATURES : List Feature := [.trade, .lp, .api, .flags]

def ORACLE_TTL_S : ℚ := 30
def QUALIFIED_WRITE_STEP_S : ℚ := 5
def POLICY_SKEW_S : ℚ := 600
def POLICY_READ_S : ℚ := 5
def MAX_WALLETS : Nat := 4096

structure FeeTier where
  minSupplyBps : Nat
  feeBps : Nat
  deriving DecidableEq, Repr

def DEFAULT_FEE_TIERS : List FeeTier := [⟨10, 75⟩, ⟨50, 50⟩]

structure GatePolicy where
  version : Nat
  token : Option Address
  decimals : Nat
  threshold : Feature → Nat
  graceS : Nat
  issuedAt : Nat
  baseFeeBps : Nat
  feeTiers : List FeeTier

def UNSET_POLICY : GatePolicy :=
  { version := 0, token := none, decimals := 18, threshold := fun _ => 0, graceS := 0
    issuedAt := 0, baseFeeBps := 100, feeTiers := DEFAULT_FEE_TIERS }

structure Holding where
  wallet : Address
  balanceRaw : Nat
  block : Nat
  observedAt : ℚ
  totalSupplyRaw : Option Nat
  deriving DecidableEq, Repr

/-- A row of the table `qualified`. -/
structure Anchor where
  lastOkAt : ℚ
  policyVersion : Nat
  deriving DecidableEq, Repr

structure HoldingState where
  wallet : Address
  holding : Option Holding
  lastOk : Feature → Option Anchor

structure Entitlement where
  wallet : Address
  features : List Feature
  holding : Option Holding
  graceUntil : List (Feature × ℚ)
  policyVersion : Nat
  feeBps : Nat
  tier : Nat
  deriving DecidableEq, Repr

/-- A successful `balanceOf` reply. -/
structure Observation where
  wallet : Address
  token : Address
  balance : Nat
  at_ : ℚ
  deriving DecidableEq, Repr

def Holding.fresh (holding : Holding) (now : ℚ) : Bool :=
  now - holding.observedAt < ORACLE_TTL_S

def isFresh (holding : Option Holding) (now : ℚ) : Bool := holding.any (·.fresh now)

def freshBalance (holding : Option Holding) (now : ℚ) (test : Nat → Bool) : Bool :=
  holding.any fun holding => holding.fresh now && test holding.balanceRaw

inductive Grant where
  | refused
  | holder
  | grace (until_ : ℚ)
  deriving DecidableEq, Repr

/-- One turn of the feature loop in `entitle`. -/
def grant (policy : GatePolicy) (state : HoldingState) (now : ℚ) (feature : Feature) : Grant :=
  let threshold := policy.threshold feature
  if threshold = 0 ∨ freshBalance state.holding now (threshold ≤ ·) then .holder
  else match state.lastOk feature with
    | none => .refused
    | some anchor =>
      if ¬isFresh state.holding now ∧ anchor.policyVersion = policy.version ∧
          now - anchor.lastOkAt ≤ policy.graceS then .grace (anchor.lastOkAt + policy.graceS)
      else .refused

def feeTier (policy : GatePolicy) (holding : Option Holding) (now : ℚ) : Nat × Nat :=
  match holding with
  | none => (0, policy.baseFeeBps)
  | some holding =>
    match holding.totalSupplyRaw with
    | none => (0, policy.baseFeeBps)
    | some supply =>
      if holding.fresh now ∧ 0 < supply then
        (policy.feeTiers.zipIdx 1).foldl (fun best candidate =>
          if candidate.1.minSupplyBps * supply ≤ holding.balanceRaw * 10000 then
            (candidate.2, candidate.1.feeBps)
          else best) (0, policy.baseFeeBps)
      else (0, policy.baseFeeBps)

def entitle (policy : GatePolicy) (state : HoldingState) (now : ℚ) : Entitlement :=
  let grants := if policy.token.isSome then
      FEATURES.map fun feature => (feature, grant policy state now feature)
    else []
  let fee := feeTier policy state.holding now
  { wallet := state.wallet
    features := (grants.filter fun entry => entry.2 ≠ .refused).map Prod.fst
    holding := state.holding
    graceUntil := grants.filterMap fun entry => match entry.2 with
      | .grace until_ => some (entry.1, until_)
      | _ => none
    policyVersion := policy.version, feeBps := fee.2, tier := fee.1 }

theorem mem_FEATURES (feature : Feature) : feature ∈ FEATURES := by
  cases feature <;> decide

theorem mem_features (policy : GatePolicy) (state : HoldingState) (now : ℚ) (feature : Feature) :
    feature ∈ (entitle policy state now).features ↔
      policy.token.isSome ∧ grant policy state now feature ≠ .refused := by
  unfold entitle
  by_cases token : policy.token.isSome
  · simp [token, mem_FEATURES]
  · simp [token]

def Entitlement.qualified (ent : Entitlement) : List Feature :=
  ent.features.filter fun feature => feature ∉ ent.graceUntil.map Prod.fst

theorem mem_graceUntil (policy : GatePolicy) (state : HoldingState) (now : ℚ) (feature : Feature) :
    feature ∈ (entitle policy state now).graceUntil.map Prod.fst ↔
      policy.token.isSome ∧ ∃ until_, grant policy state now feature = .grace until_ := by
  unfold entitle
  by_cases token : policy.token.isSome
  · simp only [token, ↓reduceIte, List.mem_map, List.mem_filterMap, true_and]
    constructor
    · rintro ⟨_, ⟨entry, ⟨other, -, rfl⟩, found⟩, rfl⟩
      dsimp only at found
      split at found
      · rename_i until_ given
        cases found
        exact ⟨until_, given⟩
      · cases found
    · rintro ⟨until_, given⟩
      exact ⟨(feature, until_), ⟨_, ⟨feature, mem_FEATURES feature, rfl⟩, by simp [given]⟩, rfl⟩
  · simp [token]

theorem mem_qualified (policy : GatePolicy) (state : HoldingState) (now : ℚ) (feature : Feature) :
    feature ∈ (entitle policy state now).qualified ↔
      policy.token.isSome ∧ grant policy state now feature = .holder := by
  simp only [Entitlement.qualified, List.mem_filter, mem_features, mem_graceUntil,
    decide_eq_true_eq]
  by_cases token : policy.token.isSome = true
  · cases grant policy state now feature <;> simp [token]
  · simp [token]

def dropped (policy : GatePolicy) (holding : Option Holding) (now : ℚ) (feature : Feature) : Bool :=
  0 < policy.threshold feature && freshBalance holding now (· < policy.threshold feature)

def keptAnchors (policy : GatePolicy) (holding : Option Holding) (now : ℚ)
    (anchors : Feature → Option Anchor) (feature : Feature) : Option Anchor :=
  if dropped policy holding now feature then none else anchors feature

/-- Whether the anchor of a qualified feature is written: it is missing, of another
version, or far enough behind. -/
def moves (policy : GatePolicy) (holding : Holding) (anchor : Option Anchor) : Bool :=
  match anchor with
  | none => true
  | some anchor => anchor.policyVersion ≠ policy.version ∨
      QUALIFIED_WRITE_STEP_S ≤ holding.observedAt - anchor.lastOkAt

/-- `Gate.entitlement` once the holding is known: the entitlement and the anchors left. -/
def settle (policy : GatePolicy) (wallet : Address) (holding : Option Holding) (now : ℚ)
    (anchors : Feature → Option Anchor) : Entitlement × (Feature → Option Anchor) :=
  let kept := keptAnchors policy holding now anchors
  let ent := entitle policy ⟨wallet, holding, kept⟩ now
  (ent, fun feature =>
    match holding with
    | none => kept feature
    | some held =>
      if feature ∈ ent.qualified ∧ 0 < policy.threshold feature ∧
          moves policy held (kept feature) then
        some ⟨held.observedAt, policy.version⟩
      else kept feature)

structure Seen (Tag : Type) where
  holding : Holding
  tag : Tag

abbrev Cache (Tag : Type) := OrderedTable Address (Seen Tag)

/-- What `balanceOf` answered. -/
structure Reply where
  balance : Nat
  block : Nat
  deriving DecidableEq, Repr

variable {Tag : Type}

def hit (cache : Cache Tag) (wallet : Address) (now : ℚ) : Option (Seen Tag × Cache Tag) :=
  match cache.get wallet with
  | none => none
  | some seen => if seen.holding.fresh now then some (seen, cache.touch wallet) else none

def fetched (wallet : Address) (now : ℚ) (reply : Reply) (tag : Tag) : Seen Tag :=
  ⟨⟨wallet, reply.balance, reply.block, now, none⟩, tag⟩

def store (cache : Cache Tag) (wallet : Address) (seen : Seen Tag) : Cache Tag :=
  (cache.put wallet seen).trim MAX_WALLETS

/-- `_usable`. -/
def usable (cached : Option (Seen Tag)) (now : ℚ) (graceS : Nat) : Option (Seen Tag) :=
  cached.filter fun seen => now - seen.holding.observedAt ≤ graceS

/-- `replace(holding, total_supply_raw=..)`. -/
def withSupply (supply : Option Nat) (seen : Seen Tag) : Holding :=
  { seen.holding with totalSupplyRaw := supply }

theorem grant_holder (policy : GatePolicy) (wallet : Address) (now : ℚ) (feature : Feature)
    (seen : Option (Seen Tag)) (supply : Option Nat) (anchors : Feature → Option Anchor)
    (positive : 0 < policy.threshold feature)
    (holder : grant policy ⟨wallet, seen.map (withSupply supply), anchors⟩ now feature = .holder) :
    ∃ held, seen = some held ∧ held.holding.fresh now = true ∧
      policy.threshold feature ≤ held.holding.balanceRaw := by
  unfold grant at holder
  dsimp only at holder
  split at holder
  · rename_i either
    have sized := either.resolve_left positive.ne'
    cases seen with
    | none => cases sized
    | some held =>
      simp only [Option.map_some, freshBalance, Option.any_some, Bool.and_eq_true,
        decide_eq_true_eq] at sized
      exact ⟨held, rfl, sized.1, sized.2⟩
  · split at holder
    · cases holder
    · split at holder <;> cases holder

theorem feeTier_fresh (policy : GatePolicy) (now : ℚ) (seen : Option (Seen Tag))
    (supply : Option Nat) (tier : 0 < (feeTier policy (seen.map (withSupply supply)) now).1) :
    ∃ held, seen = some held ∧ held.holding.fresh now = true := by
  unfold feeTier at tier
  split at tier
  · cases tier
  · rename_i holding there
    obtain ⟨held, rfl, rfl⟩ := Option.map_eq_some_iff.mp there
    split at tier
    · cases tier
    · split at tier
      · rename_i sized
        exact ⟨held, rfl, sized.1⟩
      · cases tier

theorem mem_store (cache : Cache Tag) (wallet : Address) (seen : Seen Tag)
    (entry : Address × Seen Tag) (member : entry ∈ (store cache wallet seen).entries) :
    (entry ∈ cache.entries ∧ entry.1 ≠ wallet) ∨ entry = (wallet, seen) :=
  (mem_put _ _ _ _).mp (mem_trim _ _ _ member)

theorem hit_some (cache after : Cache Tag) (wallet : Address) (now : ℚ) (seen : Seen Tag)
    (found : hit cache wallet now = some (seen, after)) :
    (wallet, seen) ∈ cache.entries ∧ seen.holding.fresh now = true ∧
      after = cache.touch wallet := by
  unfold hit at found
  split at found
  · cases found
  · rename_i cached there
    split at found
    · simp only [Option.some.injEq, Prod.mk.injEq] at found
      obtain ⟨rfl, rfl⟩ := found
      exact ⟨(get_some _ _ _).mp there, by assumption, rfl⟩
    · cases found

theorem hit_none (cache : Cache Tag) (wallet : Address) (now : ℚ) (seen : Seen Tag)
    (missed : hit cache wallet now = none) (there : cache.get wallet = some seen) :
    seen.holding.fresh now = false := by
  simp only [hit, there] at missed
  simpa using missed

/-- A row of the table `policy`. -/
structure PolicyRow where
  policy : GatePolicy
  signature : String

/-- The table `policy`, whose primary key is the version, and what the gate remembers of
it; no read time is minus infinity. -/
structure Policies where
  stored : List PolicyRow
  inForce : GatePolicy
  readAt : Option ℚ

def newerRow (best row : PolicyRow) : PolicyRow :=
  if best.policy.version < row.policy.version then row else best

/-- `ORDER BY version DESC LIMIT 1`. -/
def latest : List PolicyRow → GatePolicy
  | [] => UNSET_POLICY
  | first :: rest => (rest.foldl newerRow first).policy

def Policies.stale (policies : Policies) (now : ℚ) : Bool :=
  match policies.readAt with
  | none => true
  | some at_ => POLICY_READ_S ≤ now - at_ ∨ now < at_

/-- `Gate.policy`, without what it does to the oracle. -/
def Policies.read (policies : Policies) (now : ℚ) : Policies :=
  if policies.stale now then
    { policies with inForce := latest policies.stored, readAt := some now }
  else policies

def Policies.signatureOf (policies : Policies) (version : Nat) : Option String :=
  (policies.stored.find? fun row => row.policy.version = version).map PolicyRow.signature

def Policies.insert (policies : Policies) (row : PolicyRow) : Policies :=
  { policies with stored := policies.stored ++ [row] }

def Policies.enforce (policies : Policies) (policy : GatePolicy) (now : ℚ) : Policies :=
  { policies with inForce := policy, readAt := some now }

def Policies.publish (policies : Policies) (row : PolicyRow) (now : ℚ) : Policies :=
  (policies.insert row).enforce row.policy now

/-- What a caller of `apply_policy` sends; `recovered` is what `recover_signer` makes of
the signature over the digest. -/
structure Request where
  policy : GatePolicy
  signature : String
  recovered : Except String Address

/-- How `apply_policy` ends. -/
inductive Applied where
  | accepted (policy : GatePolicy)
  | repeated (policy : GatePolicy)
  | refused (status : Nat) (error reason : String)
  | integrity

def signerRefusal (owner : Option Address) (request : Request) : Option Applied :=
  match request.recovered with
  | .error reason => some (.refused 400 "policy signature malformed" reason)
  | .ok signer =>
    match owner with
    | none => some (.refused 403 "policy refused" "gate owner not configured")
    | some owner =>
      if signer = owner then none
      else some (.refused 403 "policy refused" "signer is not the gate owner")

/-- What `apply_policy` answers without inserting, given the policy it read. -/
def answer (policies : Policies) (current : GatePolicy) (request : Request) (now : ℚ) :
    Option Applied :=
  if policies.signatureOf request.policy.version = some request.signature ∧
      request.policy.version = current.version then some (.repeated current)
  else if request.policy.version ≤ current.version then
    some (.refused 409 "policy refused" s!"version must exceed {current.version}")
  else if POLICY_SKEW_S < |request.policy.issuedAt - now| then
    some (.refused 400 "policy refused" "issued_at outside +/-600 s")
  else none

/-- The state of the gate: its policies, the cache of the oracle, the table `qualified`. -/
structure Gate (Tag : Type) where
  policies : Policies
  cache : Cache Tag
  qualified : Address → Feature → Option Anchor

/-- `Gate.policy`; a policy with another token makes the oracle forget all. -/
def Gate.policy (gate : Gate Tag) (now : ℚ) : Gate Tag :=
  let policies := gate.policies.read now
  { gate with
    policies := policies
    cache := if policies.inForce.token ≠ gate.policies.inForce.token then .empty else gate.cache }

def Policies.holds (policies : Policies) (version : Nat) : Bool :=
  policies.stored.any fun row => row.policy.version = version

theorem newerRow_cases (best row : PolicyRow) :
    (newerRow best row = best ∧ row.policy.version ≤ best.policy.version) ∨
      (newerRow best row = row ∧ best.policy.version ≤ row.policy.version) := by
  unfold newerRow
  split
  · rename_i newer
    exact Or.inr ⟨rfl, newer.le⟩
  · rename_i older
    exact Or.inl ⟨rfl, Nat.le_of_not_lt older⟩

theorem foldl_newerRow (rest : List PolicyRow) (first : PolicyRow) :
    rest.foldl newerRow first ∈ first :: rest ∧
      ∀ row ∈ first :: rest, row.policy.version ≤ (rest.foldl newerRow first).policy.version := by
  induction rest generalizing first with
  | nil => simp
  | cons next rest ih =>
    obtain ⟨member, top⟩ := ih (newerRow first next)
    simp only [List.foldl_cons, List.forall_mem_cons] at top ⊢
    rcases newerRow_cases first next with ⟨same, order⟩ | ⟨same, order⟩
    · rw [same] at member top ⊢
      refine ⟨?_, top.1, order.trans top.1, top.2⟩
      rcases List.mem_cons.mp member with here | later
      · rw [here]
        exact List.mem_cons_self
      · exact List.mem_cons_of_mem first (List.mem_cons_of_mem next later)
    · rw [same] at member top ⊢
      exact ⟨List.mem_cons_of_mem first member, order.trans top.1, top⟩

theorem latest_cases (rows : List PolicyRow) :
    (rows = [] ∧ latest rows = UNSET_POLICY) ∨
      ((∃ row ∈ rows, row.policy = latest rows) ∧
        ∀ row ∈ rows, row.policy.version ≤ (latest rows).version) := by
  cases rows with
  | nil => exact Or.inl ⟨rfl, rfl⟩
  | cons first rest =>
    obtain ⟨member, top⟩ := foldl_newerRow rest first
    exact Or.inr ⟨⟨_, member, rfl⟩, top⟩

/-- Rows come only with positive versions of their own, and the gate remembers one of
them or none. -/
structure Policies.Kept (policies : Policies) : Prop where
  distinct : (policies.stored.map fun row => row.policy.version).Nodup
  positive : ∀ row ∈ policies.stored, 0 < row.policy.version
  known : policies.inForce = UNSET_POLICY ∨ ∃ row ∈ policies.stored, row.policy = policies.inForce

variable (policies : Policies)

theorem Policies.Kept.read (kept : policies.Kept) (now : ℚ) :
    (policies.read now).Kept ∧
      ((policies.read now).inForce = policies.inForce ∨
        policies.inForce.version < (policies.read now).inForce.version) := by
  unfold Policies.read
  split
  · rcases latest_cases policies.stored with ⟨none_, unset⟩ | ⟨⟨top, member, same⟩, highest⟩
    · have still : policies.inForce = UNSET_POLICY := by
        rcases kept.known with unset | ⟨row, member, -⟩
        · exact unset
        · rw [none_] at member
          cases member
      exact ⟨⟨kept.distinct, kept.positive, Or.inl unset⟩, Or.inl (unset.trans still.symm)⟩
    · refine ⟨⟨kept.distinct, kept.positive, Or.inr ⟨top, member, same⟩⟩, ?_⟩
      rcases kept.known with unset | ⟨row, inside, here⟩
      · right
        rw [unset, ← same]
        exact kept.positive top member
      · rcases (highest row inside).lt_or_eq with newer | equal
        · exact Or.inr (here ▸ newer)
        · left
          have twin := List.inj_on_of_nodup_map kept.distinct inside member
            (equal.trans (congrArg GatePolicy.version same.symm))
          rw [← here, twin]
          exact same.symm
  · exact ⟨kept, Or.inl rfl⟩

theorem Policies.Kept.insert (kept : policies.Kept) (row : PolicyRow)
    (absent : policies.holds row.policy.version = false) (positive : 0 < row.policy.version) :
    (policies.insert row).Kept := by
  refine ⟨?_, ?_, ?_⟩
  · simp only [Policies.insert, List.map_append, List.map_cons, List.map_nil]
    rw [← List.concat_eq_append, List.nodup_concat]
    refine ⟨?_, kept.distinct⟩
    simpa [Policies.holds] using absent
  · intro other member
    rcases List.mem_append.mp member with old | new
    · exact kept.positive other old
    · rw [List.mem_singleton.mp new]
      exact positive
  · rcases kept.known with unset | ⟨known, member, same⟩
    · exact Or.inl unset
    · exact Or.inr ⟨known, List.mem_append_left _ member, same⟩

theorem Policies.Kept.enforce (kept : policies.Kept) (row : PolicyRow)
    (member : row ∈ policies.stored) (now : ℚ) : (policies.enforce row.policy now).Kept :=
  ⟨kept.distinct, kept.positive, Or.inr ⟨row, member, rfl⟩⟩

theorem Policies.Kept.publish (kept : policies.Kept) (row : PolicyRow) (now : ℚ)
    (absent : policies.holds row.policy.version = false) (positive : 0 < row.policy.version) :
    (policies.publish row now).Kept := by
  have rows := kept.insert policies row absent positive
  exact rows.enforce _ row (List.mem_append_right _ List.mem_cons_self) now

theorem answer_none (current : GatePolicy) (request : Request) (now : ℚ)
    (unanswered : answer policies current request now = none) :
    current.version < request.policy.version := by
  unfold answer at unanswered
  split at unanswered
  · cases unanswered
  split at unanswered
  · cases unanswered
  · rename_i above
    exact Nat.lt_of_not_le above

end RhPools.LpGate
