import Mathlib.Data.List.Sort
import Mathlib.Data.List.Dedup
import RhPools.LpGate
import RhPools.PyValues
import RhPools.EventWords

/-! What a policy file says and what the fee tiers of an accepted policy give. Parsing takes a
policy only when its tiers ask for more and more supply and charge less and less; the loop of
`entitle` over the tiers relies on that. -/

namespace RhPools.GatePolicies
open TxChain LpGate PyValues
open EventWords (bind_ok)

/-! `GatePolicy.parse`. -/

def POLICY_FIELDS : List String :=
  ["version", "token", "decimals", "threshold", "grace_s", "issued_at", "base_fee_bps", "fee_tiers"]

def featureName : Feature → String
  | .trade => "trade"
  | .lp => "lp"
  | .api => "api"
  | .flags => "flags"

def require (holds : Prop) [Decidable holds] (error : String) : Except String Unit :=
  if holds then .ok () else .error error

def namesExactly (fields : Dict) (names : List String) : Prop :=
  (∀ key ∈ Dict.keys fields, key ∈ names) ∧ ∀ name ∈ names, name ∈ Dict.keys fields

instance (fields : Dict) (names : List String) : Decidable (namesExactly fields names) :=
  inferInstanceAs (Decidable (_ ∧ _))

def uintInRange (number : Int) (bits : Nat) (name : String) : Except String Nat := do
  require (0 ≤ number ∧ number < 2 ^ bits) (name ++ " out of range")
  return number.toNat

def uint (value : Value) (bits : Nat) (name : String) : Except String Nat :=
  match value with
  | .int number => uintInRange number bits name
  | .str text =>
    match readInt 10 text with
    | some number => uintInRange number bits name
    | none => .error "invalid literal for int() with base 10"
  | _ => .error (name ++ " must be an integer")

/-- The token, with the address that `to_checksum_address` reads; none where that raises. -/
def parseToken (toChecksumAddress : Value → Option Address) (token : Value) :
    Except String (Option Address) :=
  match token with
  | .none => .ok none
  | token =>
    match toChecksumAddress token with
    | none => .error "token must be an address"
    | some address => .ok (if address = 0 then none else some address)

def parseThresholds (thresholds : Value) : Except String Dict :=
  let error := "threshold must name exactly " ++
    String.intercalate ", " (FEATURES.map featureName)
  match thresholds with
  | .dict fields => do
    require (namesExactly fields (FEATURES.map featureName)) error
    return fields
  | _ => .error error

/-- `FeeTier.public`. -/
def FeeTier.public (tier : FeeTier) : Value :=
  .dict [("min_supply_bps", .int tier.minSupplyBps), ("fee_bps", .int tier.feeBps)]

def parseTierEntries (tiers : Value) : Except String (List Value) :=
  let error := "fee_tiers must be a list of at most four tiers"
  match tiers with
  | .list entries => do
    require (entries.length ≤ 4) error
    return entries
  | _ => .error error

def parseTier (entry : Value) (previousSupply : Int) (previousFee : Nat) :
    Except String FeeTier :=
  let error := "fee tier must name min_supply_bps and fee_bps"
  match entry with
  | .dict fields => do
    require (namesExactly fields ["min_supply_bps", "fee_bps"]) error
    let supply ← uint (Dict.get fields "min_supply_bps") 16 "min_supply_bps"
    let fee ← uint (Dict.get fields "fee_bps") 16 "fee_bps"
    require (supply ≤ 10000 ∧ fee ≤ 100 ∧ previousSupply < supply ∧ fee < previousFee)
      "fee tiers require increasing supply and strictly decreasing fees within 0..100 bps"
    return ⟨supply, fee⟩
  | _ => .error error

def parseTiers : List Value → Int → Nat → Except String (List FeeTier)
  | [], _, _ => .ok []
  | entry :: rest, previousSupply, previousFee => do
    let tier ← parseTier entry previousSupply previousFee
    let tiers ← parseTiers rest tier.minSupplyBps tier.feeBps
    return tier :: tiers

def unknownFields (fields : Dict) : List String :=
  (((Dict.keys fields).filter fun key => key ∉ POLICY_FIELDS).dedup).insertionSort (· ≤ ·)

def parse (toChecksumAddress : Value → Option Address) (obj : Value) :
    Except String GatePolicy :=
  match obj with
  | .dict fields => do
    require (unknownFields fields = [])
      ("unknown policy fields: " ++ String.intercalate ", " (unknownFields fields))
    let token ← parseToken toChecksumAddress (Dict.get fields "token")
    let thresholds ← parseThresholds (Dict.get fields "threshold")
    let baseFeeBps ← uint (Dict.getOr fields "base_fee_bps" (.int 100)) 16 "base_fee_bps"
    require (baseFeeBps ≤ 100) "base_fee_bps out of range"
    let entries ← parseTierEntries
      (Dict.getOr fields "fee_tiers" (.list (DEFAULT_FEE_TIERS.map FeeTier.public)))
    let feeTiers ← parseTiers entries (-1) (baseFeeBps + 1)
    let version ← uint (Dict.get fields "version") 64 "version"
    let decimals ← uint (Dict.getOr fields "decimals" (.int 18)) 8 "decimals"
    let trade ← uint (Dict.get thresholds "trade") 256 "trade"
    let lp ← uint (Dict.get thresholds "lp") 256 "lp"
    let api ← uint (Dict.get thresholds "api") 256 "api"
    let flags ← uint (Dict.get thresholds "flags") 256 "flags"
    let graceS ← uint (Dict.getOr fields "grace_s" (.int 0)) 32 "grace_s"
    let issuedAt ← uint (Dict.get fields "issued_at") 64 "issued_at"
    let threshold : Feature → Nat
      | .trade => trade
      | .lp => lp
      | .api => api
      | .flags => flags
    return { version, token, decimals, threshold, graceS, issuedAt, baseFeeBps, feeTiers }
  | _ => .error "policy must be an object"

def Stepped : Int → Nat → List FeeTier → Prop
  | _, _, [] => True
  | supply, fee, tier :: rest => supply < tier.minSupplyBps ∧ tier.feeBps < fee ∧
      Stepped tier.minSupplyBps tier.feeBps rest

theorem require_ok (holds : Prop) [Decidable holds] (error : String) :
    require holds error = .ok () ↔ holds := by
  unfold require
  split <;> simp [*]

theorem parseTier_steps (entry : Value) (supply : Int) (fee : Nat) (tier : FeeTier)
    (parsed : parseTier entry supply fee = .ok tier) :
    supply < tier.minSupplyBps ∧ tier.feeBps < fee := by
  cases entry with
  | dict fields =>
    obtain ⟨_, -, parsed⟩ := (bind_ok _ _ _).mp parsed
    obtain ⟨minimum, -, parsed⟩ := (bind_ok _ _ _).mp parsed
    obtain ⟨charged, -, parsed⟩ := (bind_ok _ _ _).mp parsed
    obtain ⟨_, steps, parsed⟩ := (bind_ok _ _ _).mp parsed
    cases parsed
    exact ((require_ok _ _).mp steps).2.2
  | _ => cases parsed

theorem parseTiers_stepped (entries : List Value) (supply : Int) (fee : Nat)
    (tiers : List FeeTier) (parsed : parseTiers entries supply fee = .ok tiers) :
    Stepped supply fee tiers := by
  induction entries generalizing supply fee tiers with
  | nil =>
    cases parsed
    trivial
  | cons entry rest ih =>
    obtain ⟨tier, here, parsed⟩ := (bind_ok _ _ _).mp parsed
    obtain ⟨later, there, parsed⟩ := (bind_ok _ _ _).mp parsed
    cases parsed
    obtain ⟨more, less⟩ := parseTier_steps entry supply fee tier here
    exact ⟨more, less, ih _ _ later there⟩

theorem parse_stepped (toChecksumAddress : Value → Option Address) (obj : Value)
    (policy : GatePolicy) (parsed : parse toChecksumAddress obj = .ok policy) :
    Stepped (-1) (policy.baseFeeBps + 1) policy.feeTiers := by
  cases obj with
  | dict fields =>
    obtain ⟨_, -, parsed⟩ := (bind_ok _ _ _).mp parsed
    obtain ⟨token, -, parsed⟩ := (bind_ok _ _ _).mp parsed
    obtain ⟨thresholds, -, parsed⟩ := (bind_ok _ _ _).mp parsed
    obtain ⟨baseFeeBps, -, parsed⟩ := (bind_ok _ _ _).mp parsed
    obtain ⟨_, -, parsed⟩ := (bind_ok _ _ _).mp parsed
    obtain ⟨entries, -, parsed⟩ := (bind_ok _ _ _).mp parsed
    obtain ⟨feeTiers, tiers, parsed⟩ := (bind_ok _ _ _).mp parsed
    obtain ⟨version, -, parsed⟩ := (bind_ok _ _ _).mp parsed
    obtain ⟨decimals, -, parsed⟩ := (bind_ok _ _ _).mp parsed
    obtain ⟨trade, -, parsed⟩ := (bind_ok _ _ _).mp parsed
    obtain ⟨lp, -, parsed⟩ := (bind_ok _ _ _).mp parsed
    obtain ⟨api, -, parsed⟩ := (bind_ok _ _ _).mp parsed
    obtain ⟨flags, -, parsed⟩ := (bind_ok _ _ _).mp parsed
    obtain ⟨graceS, -, parsed⟩ := (bind_ok _ _ _).mp parsed
    obtain ⟨issuedAt, -, parsed⟩ := (bind_ok _ _ _).mp parsed
    cases parsed
    exact parseTiers_stepped entries (-1) (baseFeeBps + 1) feeTiers tiers
  | _ => cases parsed

/-- Whether the balance meets the inclusive supply threshold of the tier. -/
def meets (balance supply : Nat) (tier : FeeTier) : Bool :=
  tier.minSupplyBps * supply ≤ balance * 10000

/-- The loop over the tiers from the one after number `index`, with the best so far. -/
def tierLoop (met : FeeTier → Bool) (tiers : List FeeTier) (index : Nat) (best : Nat × Nat) :
    Nat × Nat :=
  (tiers.zipIdx (index + 1)).foldl (fun best candidate =>
    if met candidate.1 then (candidate.2, candidate.1.feeBps) else best) best

variable (balance supply : Nat) (met : FeeTier → Bool) (tier : FeeTier)

theorem tierLoop_cons (rest : List FeeTier) (index : Nat) (best : Nat × Nat) :
    tierLoop met (tier :: rest) index best =
      tierLoop met rest (index + 1) (if met tier then (index + 1, tier.feeBps) else best) := rfl

theorem meets_lower (low high : FeeTier) (below : low.minSupplyBps ≤ high.minSupplyBps)
    (met : meets balance supply high = true) :
    meets balance supply low = true := by
  simp only [meets, decide_eq_true_eq] at met ⊢
  exact (Nat.mul_le_mul_right supply below).trans met

theorem meets_more (less more supply : Nat) (tier : FeeTier) (holds : less ≤ more)
    (met : meets less supply tier = true) : meets more supply tier = true := by
  simp only [meets, decide_eq_true_eq] at met ⊢
  exact met.trans (Nat.mul_le_mul_right 10000 holds)

variable (tiers : List FeeTier)

theorem none_met (stepped : Stepped tier.minSupplyBps tier.feeBps tiers)
    (missed : meets balance supply tier = false) :
    ∀ later ∈ tiers, meets balance supply later = false := by
  induction tiers generalizing tier with
  | nil => simp
  | cons next rest ih =>
    obtain ⟨more, -, stepped⟩ := stepped
    have next_missed : meets balance supply next = false := by
      by_contra met
      have lower := meets_lower balance supply tier next (by omega) (by simpa using met)
      rw [missed] at lower
      cases lower
    intro later member
    rcases List.mem_cons.mp member with rfl | member
    · exact next_missed
    · exact ih next stepped next_missed later member

theorem tierLoop_missed (index : Nat) (best : Nat × Nat) (missed : ∀ tier ∈ tiers, met tier = false)
    :
    tierLoop met tiers index best = best := by
  induction tiers generalizing index with
  | nil => rfl
  | cons tier rest ih =>
    rw [tierLoop_cons, missed tier List.mem_cons_self]
    exact ih (index + 1) fun later member => missed later (List.mem_cons_of_mem tier member)

theorem tierLoop_fee_le (supply : Int) (fee : Nat) (index : Nat) (best : Nat × Nat)
    (stepped : Stepped supply fee tiers) (low : fee ≤ best.2 + 1) :
    (tierLoop met tiers index best).2 ≤ best.2 := by
  induction tiers generalizing supply fee index best with
  | nil => exact le_rfl
  | cons tier rest ih =>
    obtain ⟨-, less, stepped⟩ := stepped
    rw [tierLoop_cons]
    cases met tier with
    | true =>
      have later := ih tier.minSupplyBps tier.feeBps (index + 1) (index + 1, tier.feeBps)
        stepped (Nat.le_succ _)
      exact later.trans (by simp only []; omega)
    | false => exact ih tier.minSupplyBps tier.feeBps (index + 1) best stepped (by omega)

theorem tierLoop_count (previous : Int) (fee : Nat) (index charged : Nat)
    (stepped : Stepped previous fee tiers) :
    (tierLoop (meets balance supply) tiers index (index, charged)).1 =
      index + tiers.countP (meets balance supply) := by
  induction tiers generalizing previous fee index charged with
  | nil => rfl
  | cons tier rest ih =>
    obtain ⟨-, -, stepped⟩ := stepped
    rw [tierLoop_cons]
    cases met : meets balance supply tier with
    | true =>
      rw [if_pos rfl, ih _ _ (index + 1) tier.feeBps stepped, List.countP_cons_of_pos met]
      omega
    | false =>
      have missed := none_met balance supply tier rest stepped met
      have none_ : rest.countP (meets balance supply) = 0 :=
        List.countP_eq_zero.mpr fun later member => by simp [missed later member]
      rw [if_neg Bool.false_ne_true, tierLoop_missed _ _ _ _ missed,
        List.countP_cons_of_neg (by simp [met]), none_]
      rfl

theorem tierLoop_mono (less more supply : Nat) (tiers : List FeeTier) (previous : Int) (fee : Nat)
    (index : Nat) (best : Nat × Nat) (stepped : Stepped previous fee tiers)
    (low : fee ≤ best.2 + 1) (holds : less ≤ more) :
    (tierLoop (meets more supply) tiers index best).2 ≤
      (tierLoop (meets less supply) tiers index best).2 := by
  induction tiers generalizing previous fee index best with
  | nil => exact Nat.le_refl best.2
  | cons tier rest ih =>
    have whole := stepped
    obtain ⟨-, cheaper, stepped⟩ := stepped
    cases met : meets less supply tier with
    | true =>
      rw [tierLoop_cons, tierLoop_cons, met, meets_more less more supply tier holds met]
      exact ih tier.minSupplyBps tier.feeBps (index + 1) (index + 1, tier.feeBps) stepped
        (Nat.le_succ _)
    | false =>
      -- the smaller balance stops here, the larger one can only go on to lower fees
      have stops : tierLoop (meets less supply) (tier :: rest) index best = best := by
        rw [tierLoop_cons, met]
        exact tierLoop_missed _ _ _ _ (none_met less supply tier rest stepped met)
      rw [stops]
      exact tierLoop_fee_le _ (tier :: rest) previous fee index best whole low

theorem feeTier_fresh_loop (policy : GatePolicy) (holding : Holding) (now : ℚ)
    (fresh : holding.fresh now = true) :
    feeTier policy (some holding) now = match holding.totalSupplyRaw.filter (0 < ·) with
      | some supply => tierLoop (meets holding.balanceRaw supply) policy.feeTiers 0
          (0, policy.baseFeeBps)
      | none => (0, policy.baseFeeBps) := by
  unfold feeTier
  cases known : holding.totalSupplyRaw with
  | none => simp [known]
  | some supply =>
    by_cases positive : 0 < supply
    · simp only [known, fresh, positive, and_self, if_true, Option.filter_some, decide_true]
      simp [tierLoop, meets]
    · simp [known, positive, Option.filter_some]

def metTiers (policy : GatePolicy) (holding : Holding) : Nat :=
  match holding.totalSupplyRaw.filter (0 < ·) with
  | some supply => policy.feeTiers.countP (meets holding.balanceRaw supply)
  | none => 0

theorem tier_counts (toChecksumAddress : Value → Option Address) (obj : Value)
    (policy : GatePolicy) (parsed : parse toChecksumAddress obj = .ok policy) (holding : Holding)
    (now : ℚ) (fresh : holding.fresh now = true) :
    (feeTier policy (some holding) now).1 = metTiers policy holding := by
  have stepped := parse_stepped toChecksumAddress obj policy parsed
  rw [feeTier_fresh_loop policy holding now fresh, metTiers]
  split
  · rw [tierLoop_count _ _ _ _ _ _ _ stepped, Nat.zero_add]
  · rfl

/-- More balance of the same token gives every feature that less gives, for no higher a fee;
the tier is the number of thresholds met. -/
theorem more_never_costs (toChecksumAddress : Value → Option Address) (obj : Value)
    (policy : GatePolicy) (parsed : parse toChecksumAddress obj = .ok policy)
    (wallet : Address) (anchors : Feature → Option Anchor) (now : ℚ) (less more : Holding)
    (fresh : less.fresh now = true) (freshMore : more.fresh now = true)
    (supply : less.totalSupplyRaw = more.totalSupplyRaw)
    (balance : less.balanceRaw ≤ more.balanceRaw) :
    let small := entitle policy ⟨wallet, some less, anchors⟩ now
    let large := entitle policy ⟨wallet, some more, anchors⟩ now
    (∀ feature ∈ small.features, feature ∈ large.features) ∧ large.feeBps ≤ small.feeBps ∧
      small.feeBps ≤ policy.baseFeeBps ∧ small.tier = metTiers policy less ∧
      large.tier = metTiers policy more := by
  have stepped := parse_stepped toChecksumAddress obj policy parsed
  refine ⟨?_, ?_, ?_, tier_counts toChecksumAddress obj policy parsed less now fresh,
    tier_counts toChecksumAddress obj policy parsed more now freshMore⟩
  · intro feature granted
    rw [mem_features] at granted ⊢
    refine ⟨granted.1, ?_⟩
    have held := granted.2
    unfold grant at held ⊢
    simp only [freshBalance, isFresh, Option.any_some, fresh, freshMore, Bool.true_and,
      decide_eq_true_eq] at held ⊢
    by_cases enough : policy.threshold feature = 0 ∨ policy.threshold feature ≤ less.balanceRaw
    · rw [if_pos (enough.imp_right fun least => least.trans balance)]
      exact Grant.noConfusion
    · -- a fresh holding leaves nothing to the grace
      rw [if_neg enough] at held
      split at held
      · exact absurd rfl held
      · simp at held
  · show (feeTier policy (some more) now).2 ≤ (feeTier policy (some less) now).2
    rw [feeTier_fresh_loop policy more now freshMore, feeTier_fresh_loop policy less now fresh,
      supply]
    split
    · exact tierLoop_mono _ _ _ _ _ _ _ _ stepped le_rfl balance
    · exact le_rfl
  · show (feeTier policy (some less) now).2 ≤ policy.baseFeeBps
    rw [feeTier_fresh_loop policy less now fresh]
    split
    · exact tierLoop_fee_le _ _ _ _ _ _ stepped le_rfl
    · exact le_rfl

def sampleFile : Value :=
  .dict [("version", .int 1), ("token", .str "0x0000000000000000000000000000000000000005"),
    ("threshold", .dict [("trade", .str "1000"), ("lp", .int 0), ("api", .int 5000),
      ("flags", .int 1)]), ("issued_at", .int 1790000000)]

def samplePolicy : GatePolicy :=
  { version := 1, token := some 5, decimals := 18
    threshold := fun
      | .trade => 1000
      | .lp => 0
      | .api => 5000
      | .flags => 1
    graceS := 0, issuedAt := 1790000000, baseFeeBps := 100, feeTiers := DEFAULT_FEE_TIERS }

theorem sampleFile_parsed : parse (fun _ => some 5) sampleFile = .ok samplePolicy := by
  rfl

/-- With no supply at all every threshold is zero, which any balance meets; the tier is zero. -/
theorem tier_not_counted :
    ¬ ∀ (toChecksumAddress : Value → Option Address) (obj : Value) (policy : GatePolicy),
      parse toChecksumAddress obj = .ok policy → ∀ (holding : Holding) (now : ℚ) (supply : Nat),
        holding.fresh now = true → holding.totalSupplyRaw = some supply →
        (entitle policy ⟨holding.wallet, some holding, fun _ => none⟩ now).tier =
          policy.feeTiers.countP (meets holding.balanceRaw supply) := by
  intro counts
  have count := counts (fun _ => some 5) sampleFile samplePolicy sampleFile_parsed
    ⟨9, 0, 1, 0, some 0⟩ 0 0 (by decide +kernel) rfl
  have zero_tier : (entitle samplePolicy ⟨9, some ⟨9, 0, 1, 0, some 0⟩, fun _ => none⟩ 0).tier = 0 := by
    decide +kernel
  rw [zero_tier] at count
  revert count
  decide +kernel

theorem more_never_costs_sample :
    let small := entitle samplePolicy ⟨9, some ⟨9, 2000, 1, 0, some 1000000⟩, fun _ => none⟩ 10
    let large := entitle samplePolicy ⟨9, some ⟨9, 6000, 2, 5, some 1000000⟩, fun _ => none⟩ 10
    (∀ feature ∈ small.features, feature ∈ large.features) ∧ large.feeBps ≤ small.feeBps ∧
      small.feeBps ≤ 100 ∧
      small.tier = metTiers samplePolicy ⟨9, 2000, 1, 0, some 1000000⟩ ∧
      large.tier = metTiers samplePolicy ⟨9, 6000, 2, 5, some 1000000⟩ :=
  more_never_costs (fun _ => some 5) sampleFile samplePolicy sampleFile_parsed 9 (fun _ => none) 10
    ⟨9, 2000, 1, 0, some 1000000⟩ ⟨9, 6000, 2, 5, some 1000000⟩ (by decide +kernel)
    (by decide +kernel) rfl (by decide)

end RhPools.GatePolicies
