import RhPools.GuardedRuns
import RhPools.PositionEvents

/-! The principal of a V3 position that was released and not yet collected. A burn adds to it,
a collect takes from it what is not a fee, and a snapshot of an empty position clears it; the
code trusts the fees that an event reports, and a snapshot over its own sum. -/

namespace RhPools.PrincipalClaims
open GuardedRuns MarketTables PositionEvents

def liquid (event : Event) : Bool :=
  event.protocol = some .v3 && (event.kind = .add || event.kind = .remove ||
    event.kind = .collect || event.kind = .checkpoint)

section
variable (state : Position) (event : Event)

theorem updateIdentity_keeps :
    ∃ owner custody basis episode ordinal ownership, (updateIdentity state event).1 =
      { state with
        owner := owner, custody := custody, identityBasis := basis, activeEpisode := episode
        ownershipOrdinal := ordinal, activeOwnership := ownership } := by
  unfold updateIdentity
  dsimp only
  split
  · exact ⟨_, _, _, _, _, _, rfl⟩
  · split
    · split
      · exact ⟨_, _, _, _, _, _, rfl⟩
      · exact ⟨_, _, _, _, _, _, rfl⟩
    · split
      · exact ⟨_, _, _, _, _, _, rfl⟩
      · exact ⟨_, _, _, _, _, _, rfl⟩

theorem enterEpisode_keeps (ids : Ids) (seen state : Position) (event : Event) :
    ∃ ordinal episode settled, (enterEpisode ids seen state event).1 =
      { state with episodeOrdinal := ordinal, activeEpisode := episode, settled := settled } := by
  have left : ∃ episode, (leaveEpisode state event).1 = { state with activeEpisode := episode } := by
    unfold leaveEpisode
    split
    · split
      · exact ⟨_, rfl⟩
      · exact ⟨_, rfl⟩
    · exact ⟨_, rfl⟩
  obtain ⟨episode, left⟩ := left
  unfold enterEpisode
  dsimp only
  split
  · rw [left]
    exact ⟨_, _, _, rfl⟩
  · split
    · exact ⟨_, _, _, rfl⟩
    · exact ⟨_, _, _, rfl⟩

theorem closeEpisode_keeps (protocol : ProtocolName) :
    ∃ episode settled, (closeEpisode state event protocol).1 =
      { state with activeEpisode := episode, settled := settled } := by
  unfold closeEpisode
  split
  · exact ⟨_, _, rfl⟩
  · split
    · split
      · exact ⟨_, _, rfl⟩
      · exact ⟨_, _, rfl⟩
    · split
      · split
        · exact ⟨_, _, rfl⟩
        · exact ⟨_, _, rfl⟩
      · split
        · exact ⟨_, _, rfl⟩
        · exact ⟨_, _, rfl⟩

def bothAmounts (event : Event) : Option (Int × Int) :=
  event.amount0.bind fun amount0 => event.amount1.map (amount0, ·)

def bothFees (event : Event) : Option (Int × Int) :=
  event.feeAmount0.bind fun fee0 => event.feeAmount1.map (fee0, ·)

/-- What is pending once an event has been read: what was, or nothing from a position that is
proven empty. -/
def held (position : Position) (event : Event) : Option (Int × Int) :=
  if position.pendingKnown then some (position.pending0.getD 0, position.pending1.getD 0)
  else if zeroProven position event then some (0, 0) else none

def Complete (position : Position) : Prop :=
  position.pendingKnown = true → position.pending0.isSome ∧ position.pending1.isSome

/-- The state after `enter`, as far as claims read it. -/
structure Entered (position entered : Position) (event : Event) : Prop where
  protocol : entered.protocol = some .v3
  liquidity : entered.liquidity = (readLiquidity position event).liquidity
  known : entered.pendingKnown = (held position event).isSome
  pending0 : entered.pendingKnown → entered.pending0 = (held position event).map Prod.fst
  pending1 : entered.pendingKnown → entered.pending1 = (held position event).map Prod.snd

theorem readLiquidity_keeps :
    ∃ liquidity known, readLiquidity state event =
      { state with liquidity := liquidity, liquidityKnown := known } := by
  unfold readLiquidity
  split
  · exact ⟨_, _, rfl⟩
  · split
    · exact ⟨_, _, rfl⟩
    · exact ⟨_, _, rfl⟩

theorem readLiquidity_reads (state other : Position) (event : Event)
    (liquidity : other.liquidity = state.liquidity)
    (known : other.liquidityKnown = state.liquidityKnown) :
    (readLiquidity other event).liquidity = (readLiquidity state event).liquidity := by
  have previous : previousLiquidity other event = previousLiquidity state event := by
    unfold previousLiquidity
    rw [liquidity, known]
  unfold readLiquidity afterLiquidity
  rw [previous]
  split
  · rfl
  · split
    · rfl
    · exact liquidity

theorem establish_entered (position : Position) (event : Event)
    (complete : Complete position) (named : position.protocol = some .v3) :
    Entered position (establish position event).1 event := by
  obtain ⟨liquidity, known, read⟩ := readLiquidity_keeps position event
  unfold establish
  dsimp only
  cases proven : zeroProven position event with
  | false =>
    rw [if_neg (by simp)]
    cases pending : position.pendingKnown with
    | false =>
      constructor <;> simp [held, read, pending, proven, named]
    | true =>
      obtain ⟨first, second⟩ := complete pending
      obtain ⟨pending0, first⟩ := Option.isSome_iff_exists.mp first
      obtain ⟨pending1, second⟩ := Option.isSome_iff_exists.mp second
      constructor <;> simp [held, read, pending, first, second, named]
  | true =>
    rw [if_pos rfl]
    cases pending : position.pendingKnown with
    | false =>
      cases mint : event.data.verifiedMintAfter <;>
        constructor <;> simp [held, read, pending, proven, named]
    | true =>
      obtain ⟨first, second⟩ := complete pending
      obtain ⟨pending0, first⟩ := Option.isSome_iff_exists.mp first
      obtain ⟨pending1, second⟩ := Option.isSome_iff_exists.mp second
      cases mint : event.data.verifiedMintAfter <;>
        constructor <;> simp [held, read, pending, first, second, named]

theorem enter_entered (ids : Ids) (position : Position) (event : Event)
    (complete : Complete position) (of : liquid event) :
    Entered position (enter ids position event).1 event := by
  simp only [liquid, Bool.and_eq_true, Bool.or_eq_true, decide_eq_true_eq] at of
  obtain ⟨v3, kind⟩ := of
  have stays : isTransfer position event = false := by
    unfold isTransfer
    rcases kind with ((kind | kind) | kind) | kind <;> simp [v3, kind]
  unfold enter
  rw [stays]
  dsimp only
  obtain ⟨owner, custody, basis, episode, ordinal, ownership, identified⟩ :=
    updateIdentity_keeps (readColumns position event) event
  obtain ⟨ordinal', episode', settled, entered⟩ := enterEpisode_keeps ids
    (updateIdentity (readColumns position event) event).1
    (establish (updateIdentity (readColumns position event) event).1 event).1 event
  have established : Entered position
      (establish (updateIdentity (readColumns position event) event).1 event).1 event := by
    have named : (updateIdentity (readColumns position event) event).1.protocol = some .v3 := by
      rw [identified]
      simp [readColumns, v3]
    have here := establish_entered (updateIdentity (readColumns position event) event).1 event
      (by rw [identified]; exact complete) named
    have liquidity : (readLiquidity (updateIdentity (readColumns position event) event).1
        event).liquidity = (readLiquidity position event).liquidity := by
      rw [identified]
      exact readLiquidity_reads position _ event rfl rfl
    have same : held (updateIdentity (readColumns position event) event).1 event =
        held position event := by
      rw [identified]
      rfl
    exact ⟨here.protocol, here.liquidity.trans liquidity, same ▸ here.known, same ▸ here.pending0,
      same ▸ here.pending1⟩
  simp only [Bool.false_eq_true, if_false]
  rw [entered]
  exact ⟨established.protocol, established.liquidity, established.known, established.pending0,
    established.pending1⟩

variable (pool : Decimals)

@[simp] theorem priceEffect_amounts (collects : Bool) (effect : Effect) :
    (priceEffect event pool collects effect).amounts = effect.amounts := rfl

@[simp] theorem priceEffect_allocationExact (collects : Bool) (effect : Effect) :
    (priceEffect event pool collects effect).allocationExact = effect.allocationExact := rfl

theorem financialEffect_v3 (named : state.protocol = some .v3) :
    financialEffect state event pool = priceEffect event pool (event.kind = .collect)
      (v3Effect state event (blankEffect (event.accountingBasis.getD "canonical_event"))) := by
  unfold financialEffect
  simp [named]

structure Balanced (amounts : Amounts) : Prop where
  split0 : amounts.principalWithdrawal0 + amounts.fees0 = amounts.proceeds0
  split1 : amounts.principalWithdrawal1 + amounts.fees1 = amounts.proceeds1
  principal0 : 0 ≤ amounts.principalWithdrawal0
  principal1 : 0 ≤ amounts.principalWithdrawal1
  fees0 : 0 ≤ amounts.fees0
  fees1 : 0 ≤ amounts.fees1

/-- The fees an event reports are within what it collected, and the rest is within what is
pending. -/
def fair (position : Position) (event : Event) : Bool :=
  match event.kind, bothAmounts event, bothFees event with
  | .collect, some (amount0, amount1), some (fee0, fee1) =>
    fee0 ≤ |amount0| && fee1 ≤ |amount1| && (held position event).all fun pending : Int × Int =>
      |amount0| - max 0 fee0 ≤ pending.1 && |amount1| - max 0 fee1 ≤ pending.2
  | _, _, _ => true

def calm (position : Position) (event : Event) : Bool :=
  !(owedAfter event = some (0, 0) && (readLiquidity position event).liquidity = some 0) ||
    (held position event).all fun pending : Int × Int =>
      match event.kind, bothAmounts event, bothFees event with
      | .remove, some (amount0, amount1), _ =>
        pending.1 + |amount0| = 0 && pending.2 + |amount1| = 0
      | .remove, none, _ => true
      | .collect, some (amount0, amount1), some (fee0, fee1) =>
        pending.1 = |amount0| - max 0 fee0 && pending.2 = |amount1| - max 0 fee1
      | .collect, _, _ => true
      | _, _, _ => pending.1 = 0 && pending.2 = 0

def forgets (event : Event) (effect : Effect) : Bool :=
  (event.kind = .remove && (bothAmounts event).isNone) ||
    (event.kind = .collect && !effect.allocationExact)


theorem collect_amounts (effect : Effect) (collects : event.kind = .collect) (amount0 amount1 : Int)
    (collected : bothAmounts event = some (amount0, amount1)) :
    (∃ split, splitCollect state event |amount0| |amount1| = some split ∧
      (v3Effect state event effect).allocationExact = effect.allocationExact ∧
      (v3Effect state event effect).amounts = { effect.amounts with
        proceeds0 := |amount0|, proceeds1 := |amount1|
        principalWithdrawal0 := split.principal0, principalWithdrawal1 := split.principal1
        fees0 := split.fees0, fees1 := split.fees1 }) ∨
    (v3Effect state event effect).allocationExact = false := by
  obtain ⟨first, amount0_eq, second⟩ := Option.bind_eq_some_iff.mp collected
  obtain ⟨other, amount1_eq, pair⟩ := Option.map_eq_some_iff.mp second
  cases pair
  unfold v3Effect v3Collect
  simp only [collects, amount0_eq, amount1_eq]
  cases parts : splitCollect state event |amount0| |amount1| with
  | some split => exact .inl ⟨split, rfl, rfl, rfl⟩
  | none => exact .inr rfl

theorem splitCollect_fees (collected0 collected1 fee0 fee1 : Int)
    (fees : bothFees event = some (fee0, fee1)) :
    splitCollect state event collected0 collected1 = some
      { principal0 := max 0 (collected0 - min collected0 (max 0 fee0))
        principal1 := max 0 (collected1 - min collected1 (max 0 fee1))
        fees0 := max 0 fee0
        fees1 := max 0 fee1 } := by
  obtain ⟨first, fee0_eq, second⟩ := Option.bind_eq_some_iff.mp fees
  obtain ⟨other, fee1_eq, pair⟩ := Option.map_eq_some_iff.mp second
  cases pair
  unfold splitCollect
  rw [fee0_eq, fee1_eq]

theorem splitCollect_pending (collected0 collected1 : Int) (split : Split)
    (unread : bothFees event = none)
    (found : splitCollect state event collected0 collected1 = some split) :
    state.pendingKnown ∧
      split = ⟨state.pending0.getD 0, state.pending1.getD 0, collected0 - state.pending0.getD 0,
        collected1 - state.pending1.getD 0⟩ ∧
      ((collected0 ≥ state.pending0.getD 0 ∧ collected1 ≥ state.pending1.getD 0) ∨
        (state.pending0.getD 0 = 0 ∧ state.pending1.getD 0 = 0)) := by
  unfold splitCollect at found
  split at found
  · next fee0 fee1 first second =>
      exact absurd unread (by simp [bothFees, first, second])
  · split at found
    · next known =>
        dsimp only at found
        split at found
        · next settles =>
            refine ⟨known, (Option.some.inj found).symm, ?_⟩
            simp only [Bool.or_eq_true, Bool.and_eq_true, decide_eq_true_eq] at settles
            rcases settles with ⟨⟨_, first⟩, second⟩ | nothing
            · exact .inl ⟨first, second⟩
            · exact .inr nothing
        · cases found
    · cases found

theorem collect_without (effect : Effect) (collects : event.kind = .collect)
    (unread : bothAmounts event = none) :
    (v3Effect state event effect).allocationExact = false := by
  unfold v3Effect v3Collect
  simp only [collects]
  split
  · exact absurd unread (by simp [bothAmounts, *])
  · rfl

end

variable {position entered : Position} {event : Event} {pending : Int × Int}

variable (state : Position)

theorem v3Effect_still (event : Event) (basis : String)
    (adds : event.kind = .add ∨ event.kind = .checkpoint) :
    (v3Effect state event (blankEffect basis)).amounts.released0 = 0 ∧
      (v3Effect state event (blankEffect basis)).amounts.released1 = 0 ∧
      (v3Effect state event (blankEffect basis)).amounts.principalWithdrawal0 = 0 ∧
      (v3Effect state event (blankEffect basis)).amounts.principalWithdrawal1 = 0 := by
  unfold v3Effect
  rcases adds with kind | kind
  · simp only [kind]
    split
    · exact ⟨rfl, rfl, rfl, rfl⟩
    · exact ⟨rfl, rfl, rfl, rfl⟩
  · simp only [kind]
    exact ⟨rfl, rfl, rfl, rfl⟩

theorem v3Effect_remove (event : Event) (basis : String) (removes : event.kind = .remove)
    (amount0 amount1 : Int) (released : bothAmounts event = some (amount0, amount1)) :
    (v3Effect state event (blankEffect basis)).amounts =
      { Amounts.zero with released0 := |amount0|, released1 := |amount1| } := by
  obtain ⟨first, amount0_eq, second⟩ := Option.bind_eq_some_iff.mp released
  obtain ⟨other, amount1_eq, pair⟩ := Option.map_eq_some_iff.mp second
  cases pair
  unfold v3Effect
  simp only [removes, amount0_eq, amount1_eq]
  rfl

theorem v3Effect_collect (event : Event) (basis : String) (collects : event.kind = .collect) :
    (v3Effect state event (blankEffect basis)).amounts.released0 = 0 ∧
      (v3Effect state event (blankEffect basis)).amounts.released1 = 0 := by
  unfold v3Effect v3Collect
  simp only [collects]
  split
  · split
    · exact ⟨rfl, rfl⟩
    · exact ⟨rfl, rfl⟩
  · exact ⟨rfl, rfl⟩

theorem collect_balanced (here : Entered position entered event) (pool : Decimals)
    (collects : event.kind = .collect) (met : fair position event)
    (positive : ∀ pending ∈ held position event, 0 ≤ pending.1 ∧ 0 ≤ pending.2)
    (exact : (financialEffect entered event pool).allocationExact = true) :
    Balanced (financialEffect entered event pool).amounts ∧
      (∀ pending ∈ held position event,
        (financialEffect entered event pool).amounts.principalWithdrawal0 ≤ pending.1 ∧
        (financialEffect entered event pool).amounts.principalWithdrawal1 ≤ pending.2) := by
  rw [financialEffect_v3 entered event pool here.protocol] at exact ⊢
  rw [priceEffect_allocationExact] at exact
  rw [priceEffect_amounts]
  cases collected : bothAmounts event with
  | none =>
    rw [collect_without entered event _ collects collected] at exact
    cases exact
  | some pair =>
    obtain ⟨amount0, amount1⟩ := pair
    obtain ⟨split, parts, _, amounts⟩ | inexact := collect_amounts entered event _ collects
      amount0 amount1 collected
    · rw [amounts]
      cases fees : bothFees event with
      | some pair =>
        obtain ⟨fee0, fee1⟩ := pair
        rw [splitCollect_fees entered event _ _ fee0 fee1 fees] at parts
        cases parts
        simp only [fair, collects, collected, fees, Bool.and_eq_true, decide_eq_true_eq] at met
        obtain ⟨⟨within0, within1⟩, within⟩ := met
        have size0 : 0 ≤ |amount0| := abs_nonneg amount0
        have size1 : 0 ≤ |amount1| := abs_nonneg amount1
        constructor
        · constructor <;> dsimp only <;> omega
        · intro pending known
          rw [known, Option.all_some, Bool.and_eq_true, decide_eq_true_eq,
            decide_eq_true_eq] at within
          constructor <;> dsimp only <;> omega
      | none =>
        obtain ⟨known, rfl, covers⟩ := splitCollect_pending entered event _ _ split fees parts
        obtain ⟨pending, found⟩ := Option.isSome_iff_exists.mp (here.known ▸ known)
        have pending0 : entered.pending0 = some pending.1 := by
          rw [here.pending0 known, found, Option.map_some]
        have pending1 : entered.pending1 = some pending.2 := by
          rw [here.pending1 known, found, Option.map_some]
        rw [pending0, pending1, Option.getD_some, Option.getD_some] at covers
        have size0 : 0 ≤ |amount0| := abs_nonneg amount0
        have size1 : 0 ≤ |amount1| := abs_nonneg amount1
        have least := positive pending found
        rw [pending0, pending1]
        constructor
        · constructor <;> dsimp only [Option.getD_some] <;> omega
        · intro other known
          rw [found, Option.mem_some_iff] at known
          subst known
          exact ⟨le_refl _, le_refl _⟩
    · rw [inexact] at exact
      cases exact

def moved (pending : Int × Int) (amounts : Amounts) : Int × Int :=
  (pending.1 + amounts.released0 - amounts.principalWithdrawal0,
    pending.2 + amounts.released1 - amounts.principalWithdrawal1)

theorem movePending_liquidity (event : Event) (effect : Effect) :
    (movePending state event effect).liquidity = state.liquidity := by
  unfold movePending
  split
  · split
    · split
      · rfl
      · rfl
    · rfl
  · split
    · split
      · rfl
      · rfl
    · rfl
  · rfl

theorem movePending_forgets (event : Event) (effect : Effect)
    (forgotten : forgets event effect ∨ state.pendingKnown = false) :
    (movePending state event effect).pendingKnown = false := by
  unfold movePending
  split
  · next removes =>
      split
      · next amount0 amount1 first second =>
          rcases forgotten with forgotten | unknown
          · simp [forgets, removes, bothAmounts, first, second] at forgotten
          · rw [if_neg (by simp [unknown])]
            exact unknown
      · rfl
  · next collects =>
      split
      · next exact =>
          rcases forgotten with forgotten | unknown
          · simp [forgets, collects, exact] at forgotten
          · rw [if_neg (by simp [unknown])]
            exact unknown
      · rfl
  · next keeps moves =>
      rcases forgotten with forgotten | unknown
      · simp only [forgets, Bool.or_eq_true, Bool.and_eq_true, decide_eq_true_eq] at forgotten
        rcases forgotten with ⟨removes, _⟩ | ⟨collects, _⟩
        · exact absurd removes keeps
        · exact absurd collects moves
      · exact unknown

/-- An event that is remembered moves the pending principal by what it released and
attributed, and leaves none of it negative. -/
theorem movePending_moves (here : Entered position entered event) (pool : Decimals)
    (of : liquid event) (met : fair position event)
    (positive : ∀ pending ∈ held position event, 0 ≤ pending.1 ∧ 0 ≤ pending.2)
    (known : held position event = some pending)
    (remembered : forgets event (financialEffect entered event pool) = false) :
    (movePending entered event (financialEffect entered event pool)).pendingKnown = true ∧
      (movePending entered event (financialEffect entered event pool)).pending0 =
        some (moved pending (financialEffect entered event pool).amounts).1 ∧
      (movePending entered event (financialEffect entered event pool)).pending1 =
        some (moved pending (financialEffect entered event pool).amounts).2 ∧
      0 ≤ (moved pending (financialEffect entered event pool).amounts).1 ∧
      0 ≤ (moved pending (financialEffect entered event pool).amounts).2 := by
  obtain ⟨least0, least1⟩ := positive pending known
  have standing : entered.pendingKnown = true := by
    rw [here.known, known, Option.isSome_some]
  have pending0 : entered.pending0 = some pending.1 := by
    rw [here.pending0 standing, known, Option.map_some]
  have pending1 : entered.pending1 = some pending.2 := by
    rw [here.pending1 standing, known, Option.map_some]
  simp only [liquid, Bool.and_eq_true, Bool.or_eq_true, decide_eq_true_eq] at of
  have kinds : (event.kind = .add ∨ event.kind = .checkpoint) ∨ event.kind = .remove ∨
      event.kind = .collect := by
    tauto
  rcases kinds with stays | removes | collects
  · rw [financialEffect_v3 entered event pool here.protocol, priceEffect_amounts]
    obtain ⟨released0, released1, taken0, taken1⟩ := v3Effect_still entered event
      (event.accountingBasis.getD "canonical_event") stays
    have still : moved pending (v3Effect entered event (blankEffect
        (event.accountingBasis.getD "canonical_event"))).amounts = pending := by
      simp [moved, released0, released1, taken0, taken1]
    have kept (effect : Effect) : movePending entered event effect = entered := by
      rcases stays with kind | kind
      · simp only [movePending, kind]
      · simp only [movePending, kind]
    rw [still, kept]
    exact ⟨standing, pending0, pending1, least0, least1⟩
  · rw [financialEffect_v3 entered event pool here.protocol, priceEffect_amounts]
    cases amounts : bothAmounts event with
    | none => simp [forgets, removes, amounts] at remembered
    | some pair =>
      obtain ⟨amount0, amount1⟩ := pair
      rw [v3Effect_remove entered event _ removes amount0 amount1 amounts]
      obtain ⟨first, amount0_eq, second⟩ := Option.bind_eq_some_iff.mp amounts
      obtain ⟨other, amount1_eq, pair⟩ := Option.map_eq_some_iff.mp second
      cases pair
      have size0 : 0 ≤ |amount0| := abs_nonneg amount0
      have size1 : 0 ≤ |amount1| := abs_nonneg amount1
      simp only [movePending, removes, amount0_eq, amount1_eq, if_pos standing, pending0,
        pending1, Option.getD_some, moved, Amounts.zero, sub_zero]
      exact ⟨standing, trivial, trivial, by omega, by omega⟩
  · have exact : (financialEffect entered event pool).allocationExact = true := by
      simpa [forgets, collects] using remembered
    obtain ⟨balanced, taken⟩ := collect_balanced here pool collects met positive exact
    obtain ⟨taken0, taken1⟩ := taken pending known
    have released := v3Effect_collect entered event
      (event.accountingBasis.getD "canonical_event") collects
    rw [← priceEffect_amounts event pool (event.kind = .collect),
      ← financialEffect_v3 entered event pool here.protocol] at released
    simp only [movePending, collects, if_pos exact, if_pos standing, pending0, pending1,
      Option.getD_some, moved, released, add_zero]
    exact ⟨standing, by rw [max_eq_right (by omega)], by rw [max_eq_right (by omega)],
      by omega, by omega⟩

structure Tally where
  released0 : Int
  released1 : Int
  principal0 : Int
  principal1 : Int
  deriving DecidableEq, Repr

def Tally.zero : Tally := ⟨0, 0, 0, 0⟩

def Tally.add (tally : Tally) (amounts : Amounts) : Tally where
  released0 := tally.released0 + amounts.released0
  released1 := tally.released1 + amounts.released1
  principal0 := tally.principal0 + amounts.principalWithdrawal0
  principal1 := tally.principal1 + amounts.principalWithdrawal1

def Tally.left (tally : Tally) : Int × Int :=
  (tally.released0 - tally.principal0, tally.released1 - tally.principal1)

theorem Tally.add_left (tally : Tally) (amounts : Amounts) :
    (tally.add amounts).left = moved tally.left amounts := by
  unfold Tally.left Tally.add moved
  ext
  · dsimp only
    omega
  · dsimp only
    omega

/-- The tally after an event; it begins anew where the pending principal becomes known. -/
def Tally.next (tally : Tally) (position : Position) (event : Event) (effect : Effect) : Tally :=
  if (held position event).isNone || forgets event effect then .zero
  else (if position.pendingKnown then tally else .zero).add effect.amounts

structure Book where
  position : Position
  tally : Tally
  collects : List Effect

def effectOf (ids : Ids) (pool : Decimals) (position : Position) (event : Event) : Effect :=
  financialEffect (enter ids position event).1 event pool

def step (ids : Ids) (book : Book) (action : Event × Decimals) : Option Book :=
  let (event, pool) := action
  if liquid event then
    let effect := effectOf ids pool book.position event
    some
      { position := (processEvent ids pool book.position event).1
        tally := book.tally.next book.position event effect
        collects := if event.kind = .collect then effect :: book.collects else book.collects }
  else none

def initial (book : Book) : Prop :=
  book.position.pendingKnown = false ∧ book.tally = .zero ∧ book.collects = []

def accounting (ids : Ids) : System Book (Event × Decimals) := ⟨initial, step ids⟩

def Sound (book : Book) (action : Event × Decimals) : Prop :=
  fair book.position action.1 = true ∧ calm book.position action.1 = true

instance (book : Book) (action : Event × Decimals) : Decidable (Sound book action) :=
  inferInstanceAs (Decidable (_ ∧ _))

structure Conserved (book : Book) : Prop where
  pending0 : book.position.pendingKnown → book.position.pending0 = some book.tally.left.1
  pending1 : book.position.pendingKnown → book.position.pending1 = some book.tally.left.2
  positive0 : book.position.pendingKnown → 0 ≤ book.tally.left.1
  positive1 : book.position.pendingKnown → 0 ≤ book.tally.left.2
  balanced : ∀ effect ∈ book.collects, effect.allocationExact = true → Balanced effect.amounts

theorem processEvent_claims (ids : Ids) (pool : Decimals) (position : Position) (event : Event)
    (complete : Complete position) (of : liquid event) :
    ∃ entered, Entered position entered event ∧
      effectOf ids pool position event = financialEffect entered event pool ∧
      ∃ owed, owed = readOwed (movePending entered event (effectOf ids pool position event)) event ∧
        (processEvent ids pool position event).1.pendingKnown = owed.pendingKnown ∧
        (processEvent ids pool position event).1.pending0 = owed.pending0 ∧
        (processEvent ids pool position event).1.pending1 = owed.pending1 := by
  have here := enter_entered ids position event complete of
  let applied := { (enter ids position event).1 with
    activeEpisode := (enter ids position event).1.activeEpisode.map fun episode : Episode =>
      episode.apply (effectOf ids pool position event) event }
  have named : updateClaimState applied event (effectOf ids pool position event) =
      readOwed (movePending applied event (effectOf ids pool position event)) event := by
    unfold updateClaimState
    rw [if_pos (by simp [applied, here.protocol])]
  refine ⟨applied, ⟨here.protocol, here.liquidity, here.known, here.pending0, here.pending1⟩, rfl,
    _, rfl, ?_⟩
  obtain ⟨episode, settled, closed⟩ := closeEpisode_keeps
    (updateClaimState applied event (effectOf ids pool position event)) event
    ((event.protocol.or position.protocol).getD .unknown)
  have processed : (processEvent ids pool position event).1 =
      { (closeEpisode (updateClaimState applied event (effectOf ids pool position event)) event
          ((event.protocol.or position.protocol).getD .unknown)).1 with
        lastSpot := event.spot, lastId := event.id, lastTimestamp := event.timestamp } :=
    rfl
  rw [processed, closed, named]
  exact ⟨rfl, rfl, rfl⟩

theorem readOwed_keeps (event : Event) (unclear : clears state event = false) :
    (readOwed state event).pendingKnown = state.pendingKnown ∧
      (readOwed state event).pending0 = state.pending0 ∧
      (readOwed state event).pending1 = state.pending1 := by
  unfold readOwed
  split
  · exact ⟨rfl, rfl, rfl⟩
  · rw [if_neg (by simp [unclear])]
    exact ⟨rfl, rfl, rfl⟩

theorem readOwed_clears (event : Event) (clear : clears state event = true) :
    (readOwed state event).pendingKnown = true ∧
      (readOwed state event).pending0 = some 0 ∧ (readOwed state event).pending1 = some 0 := by
  unfold readOwed
  split
  · next unread => simp [clears, unread] at clear
  · rw [if_pos clear]
    exact ⟨rfl, rfl, rfl⟩

theorem calm_moves {position entered : Position} {event : Event} {pending : Int × Int}
    (here : Entered position entered event) (pool : Decimals) (of : liquid event)
    (met : fair position event) (settled : calm position event)
    (known : held position event = some pending)
    (remembered : forgets event (financialEffect entered event pool) = false)
    (clear : clears (movePending entered event (financialEffect entered event pool)) event) :
    moved pending (financialEffect entered event pool).amounts = (0, 0) := by
  simp only [clears, Bool.and_eq_true, decide_eq_true_eq, movePending_liquidity,
    here.liquidity] at clear
  obtain ⟨empty, zero⟩ := clear
  simp only [calm, empty, zero, known, decide_true, Bool.and_true, Bool.not_true, Bool.false_or,
    Option.all_some] at settled
  simp only [liquid, Bool.and_eq_true, Bool.or_eq_true, decide_eq_true_eq] at of
  have kinds : (event.kind = .add ∨ event.kind = .checkpoint) ∨ event.kind = .remove ∨
      event.kind = .collect := by
    tauto
  rw [financialEffect_v3 entered event pool here.protocol, priceEffect_amounts]
  rw [financialEffect_v3 entered event pool here.protocol] at remembered
  rcases kinds with stays | removes | collects
  · obtain ⟨released0, released1, taken0, taken1⟩ := v3Effect_still entered event
      (event.accountingBasis.getD "canonical_event") stays
    have nothing : pending.1 = 0 ∧ pending.2 = 0 := by
      rcases stays with kind | kind
      · simpa [kind] using settled
      · simpa [kind] using settled
    simp [moved, released0, released1, taken0, taken1, nothing]
  · cases amounts : bothAmounts event with
    | none => simp [forgets, removes, amounts] at remembered
    | some pair =>
      obtain ⟨amount0, amount1⟩ := pair
      rw [v3Effect_remove entered event _ removes amount0 amount1 amounts]
      simp only [removes, amounts, Bool.and_eq_true, decide_eq_true_eq] at settled
      simp [moved, Amounts.zero, settled]
  · have released := v3Effect_collect entered event
      (event.accountingBasis.getD "canonical_event") collects
    have exact : (v3Effect entered event (blankEffect
        (event.accountingBasis.getD "canonical_event"))).allocationExact = true := by
      simpa [forgets, collects] using remembered
    cases collected : bothAmounts event with
    | none =>
      rw [collect_without entered event _ collects collected] at exact
      cases exact
    | some pair =>
      obtain ⟨amount0, amount1⟩ := pair
      obtain ⟨split, parts, _, amounts⟩ | inexact := collect_amounts entered event
        (blankEffect (event.accountingBasis.getD "canonical_event")) collects amount0 amount1
        collected
      · have taken : split.principal0 = pending.1 ∧ split.principal1 = pending.2 := by
          cases fees : bothFees event with
          | some pair =>
            obtain ⟨fee0, fee1⟩ := pair
            rw [splitCollect_fees entered event _ _ fee0 fee1 fees] at parts
            cases parts
            simp only [fair, collects, collected, fees, Bool.and_eq_true,
              decide_eq_true_eq] at met
            simp only [collects, collected, fees, Bool.and_eq_true,
              decide_eq_true_eq] at settled
            have size0 : 0 ≤ |amount0| := abs_nonneg amount0
            have size1 : 0 ≤ |amount1| := abs_nonneg amount1
            constructor <;> dsimp only <;> omega
          | none =>
            obtain ⟨standing, rfl, _⟩ := splitCollect_pending entered event _ _ split fees parts
            rw [here.pending0 standing, here.pending1 standing, known]
            exact ⟨rfl, rfl⟩
        have part0 := congrArg Amounts.principalWithdrawal0 amounts
        have part1 := congrArg Amounts.principalWithdrawal1 amounts
        dsimp only at part0 part1
        simp [moved, released, part0, part1, taken]
      · rw [inexact] at exact
        cases exact

theorem held_tally (book : Book) (event : Event) (pending : Int × Int) (before : Conserved book)
    (known : held book.position event = some pending) (since : Tally)
    (here : since = if book.position.pendingKnown then book.tally else .zero) :
    pending = since.left ∧ 0 ≤ pending.1 ∧ 0 ≤ pending.2 := by
  unfold held at known
  cases standing : book.position.pendingKnown with
  | true =>
    rw [standing, if_pos rfl] at here
    rw [standing, if_pos rfl, before.pending0 standing, before.pending1 standing] at known
    cases known
    rw [here]
    exact ⟨rfl, before.positive0 standing, before.positive1 standing⟩
  | false =>
    rw [standing, if_neg (by simp)] at here
    rw [standing, if_neg (by simp)] at known
    split at known
    · cases known
      rw [here]
      exact ⟨rfl, le_refl _, le_refl _⟩
    · cases known

/-- The parts of `Conserved` about the position, for a state and a tally. -/
def Follows (position : Position) (tally : Tally) : Prop :=
  position.pendingKnown = true →
    position.pending0 = some tally.left.1 ∧ position.pending1 = some tally.left.2 ∧
    0 ≤ tally.left.1 ∧ 0 ≤ tally.left.2

/-- The pending principal after an event that is remembered follows the tally; after any other
it is unknown, or cleared. -/
theorem processEvent_follows (ids : Ids) (pool : Decimals) (book : Book) (event : Event)
    (before : Conserved book) (of : liquid event) (fairly : fair book.position event)
    (calmly : calm book.position event) (complete : Complete book.position) :
    Follows (processEvent ids pool book.position event).1
      (book.tally.next book.position event (effectOf ids pool book.position event)) := by
  intro standing
  obtain ⟨entered, here, effect, owed, claims, known, pending0, pending1⟩ :=
    processEvent_claims ids pool book.position event complete of
  rw [known, claims] at standing
  rw [pending0, pending1, claims]
  unfold Tally.next
  cases gone : (held book.position event).isNone ||
      forgets event (effectOf ids pool book.position event) with
  | true =>
    rw [if_pos rfl]
    have unknown : (movePending entered event (effectOf ids pool book.position
        event)).pendingKnown = false := by
      apply movePending_forgets
      rw [here.known]
      cases read : held book.position event with
      | none => exact .inr rfl
      | some pending =>
        rw [read, Option.isNone_some, Bool.false_or] at gone
        exact .inl gone
    cases clear : clears (movePending entered event (effectOf ids pool book.position event))
        event with
    | true =>
      obtain ⟨_, zero0, zero1⟩ := readOwed_clears _ event clear
      rw [zero0, zero1]
      exact ⟨rfl, rfl, le_refl _, le_refl _⟩
    | false =>
      rw [(readOwed_keeps _ event clear).1, unknown] at standing
      cases standing
  | false =>
    rw [if_neg (by simp)]
    obtain ⟨read, remembered⟩ := Bool.or_eq_false_iff.mp gone
    obtain ⟨pending, found⟩ := Option.ne_none_iff_exists'.mp (Option.isNone_eq_false_iff.mp read
      |> Option.isSome_iff_ne_none.mp)
    obtain ⟨balance, _⟩ := held_tally book event pending before found _ rfl
    rw [effect] at remembered ⊢
    obtain ⟨_, after0, after1, least0, least1⟩ := movePending_moves here pool of fairly
      (fun pending known => (held_tally book event pending before known _ rfl).2) found remembered
    rw [Tally.add_left, ← balance]
    cases clear : clears (movePending entered event (financialEffect entered event pool))
        event with
    | true =>
      obtain ⟨_, zero0, zero1⟩ := readOwed_clears _ event clear
      have nothing := calm_moves here pool of fairly calmly found remembered clear
      rw [zero0, zero1, nothing]
      exact ⟨rfl, rfl, le_refl _, le_refl _⟩
    | false =>
      obtain ⟨_, kept0, kept1⟩ := readOwed_keeps _ event clear
      rw [kept0, kept1, after0, after1]
      exact ⟨rfl, rfl, least0, least1⟩

theorem step_conserves (ids : Ids) (book next : Book) (action : Event × Decimals)
    (before : Conserved book) (met : Sound book action)
    (taken : step ids book action = some next) : Conserved next := by
  obtain ⟨event, pool⟩ := action
  obtain ⟨fairly, calmly⟩ := met
  unfold step at taken
  dsimp only at taken fairly calmly
  split at taken
  · next of =>
      cases taken
      have complete : Complete book.position := by
        intro known
        rw [before.pending0 known, before.pending1 known]
        exact ⟨rfl, rfl⟩
      have follows := processEvent_follows ids pool book event before of fairly calmly complete
      constructor
      · exact fun known => (follows known).1
      · exact fun known => (follows known).2.1
      · exact fun known => (follows known).2.2.1
      · exact fun known => (follows known).2.2.2
      · intro effect listed exact
        dsimp only at listed
        split at listed
        · next collects =>
            rcases List.mem_cons.mp listed with rfl | earlier
            · obtain ⟨entered, here, effect, _⟩ :=
                processEvent_claims ids pool book.position event complete of
              rw [effect] at exact ⊢
              exact (collect_balanced here pool collects fairly (fun pending known =>
                (held_tally book event pending before known _ rfl).2) exact).1
            · exact before.balanced effect earlier exact
        · exact before.balanced effect listed exact
  · cases taken

/-- As long as no event reports a fee beyond what it collected, a collect beyond what is pending,
or an empty position where principal is pending, the pending principal is what was released and
not attributed, and every exact collect splits into principal and fees. -/
theorem principal_conserved (ids : Ids) (book : Book)
    (reached : (accounting ids).Reaches Sound book) : Conserved book := by
  refine System.Reaches.invariant Conserved ?_ ?_ book reached
  · intro start ⟨unknown, _, empty⟩
    constructor
    · intro known
      rw [unknown] at known
      cases known
    · intro known
      rw [unknown] at known
      cases known
    · intro known
      rw [unknown] at known
      cases known
    · intro known
      rw [unknown] at known
      cases known
    · intro effect listed
      rw [empty] at listed
      cases listed
  · exact fun state action next before met taken =>
      step_conserves ids state next action before met taken

def blankBook : Book := ⟨newState "position" (plainEvent .add 1 1 5 5), .zero, []⟩

def sampleEvents : List (Event × Decimals) :=
  [({ plainEvent .add 1 1 5 5 with data := { plainData with verifiedMintAfter := true } },
      noDecimals),
    (plainEvent .remove 2 1 5 5, noDecimals),
    ({ plainEvent .collect 3 0 7 6 with feeAmount0 := some 2, feeAmount1 := some 1 }, noDecimals)]

def sampleIds : Ids := fun _ => none

theorem sample_runs : ((accounting sampleIds).run blankBook sampleEvents).isSome := by
  decide

def sampleBook : Book := ((accounting sampleIds).run blankBook sampleEvents).get sample_runs

theorem principal_conserved_sample : Conserved sampleBook := by
  apply principal_conserved sampleIds
  apply System.Reaches.run blankBook sampleBook sampleEvents
  · exact .start _ ⟨rfl, rfl, rfl⟩
  · decide +kernel
  · exact (Option.some_get sample_runs).symm

def overcharged : List (Event × Decimals) :=
  [({ plainEvent .collect 1 0 10 10 with feeAmount0 := some 15, feeAmount1 := some 0 },
    noDecimals)]

theorem overcharged_runs : ((accounting sampleIds).run blankBook overcharged).isSome := by
  decide

def overchargedBook : Book :=
  ((accounting sampleIds).run blankBook overcharged).get overcharged_runs

/-- Its split is exact, and fifteen of ten are fees. -/
theorem overcharged_unbalanced : ¬∀ (ids : Ids) (book : Book),
    (accounting ids).Reaches always book → Conserved book := by
  intro claim
  have reached : (accounting sampleIds).Reaches always overchargedBook := by
    apply System.Reaches.run blankBook overchargedBook overcharged
    · exact .start _ ⟨rfl, rfl, rfl⟩
    · exact System.runMeets_always _ _
    · exact (Option.some_get overcharged_runs).symm
  have apart : ∃ effect ∈ overchargedBook.collects, effect.allocationExact = true ∧
      effect.amounts.principalWithdrawal0 + effect.amounts.fees0 ≠ effect.amounts.proceeds0 := by
    decide +kernel
  obtain ⟨effect, listed, exact, differs⟩ := apart
  exact differs ((claim sampleIds overchargedBook reached).balanced effect listed exact).split0

end RhPools.PrincipalClaims
