import RhPools.PlannedSwaps

/-! Reading a swap back from its calldata. The reader scans the commands with a
state; every piece of a planned command list has one effect on that state, so
reading a whole plan is the composition of the effects of its pieces. -/

namespace RhPools.SwapShapes
open BigEndian AbiCodec TxChain TxRoutes UrCommands TxPlan PlannedSwaps ProportionalShares

structure FeePaid where
  token : Address
  recipient : Address
  bips : Int
  deriving DecidableEq, Repr

/-- The loop state of `TxCore._swap_shape`. -/
structure Scan where
  currencyIn : Address
  amountIn : Int
  fee : Option FeePaid
  feeLeg : FeeLeg
  hops : List Hop
  starts : List (Nat × Int)
  currencyOut : Option Address
  deriving DecidableEq

def opening (value : Int) : Scan := ⟨NATIVE, value, none, .input, [], [], none⟩

def unknownPool (venue : String) (a b : Address) : Failure :=
  .tx "unknown_pool" ("no indexed " ++ venue ++ " pool for " ++ spell a ++ "/" ++ spell b)

def v3Hop (book : RouteBook) (a b : Address) (feePpm : Int) : Try Hop :=
  match book.poolFor .v3 a b (some feePpm) (some UR_V3_FACTORY) none with
  | some pool => .ok ⟨pool, a, b⟩
  | none => .error (unknownPool "V3" a b)

def v2Hop (book : RouteBook) (a b : Address) : Try Hop :=
  match book.poolFor .v2 a b none (some UR_V2_FACTORY) none with
  | some pool => .ok ⟨pool, a, b⟩
  | none => .error (unknownPool "V2" a b)

def v3Hops (book : RouteBook) : List Address → List Int → Try (List Hop)
  | a :: b :: rest, fee :: fees => do
    let hop ← v3Hop book a b fee
    let after ← v3Hops book (b :: rest) fees
    return hop :: after
  | _, _ => .ok []

def v2Hops (book : RouteBook) : List Address → Try (List Hop)
  | a :: b :: rest => do
    let hop ← v2Hop book a b
    let after ← v2Hops book (b :: rest)
    return hop :: after
  | _ => .ok []

def single : V4Param → Option (PoolKey × Bool × Int)
  | .swapExactInSingle key zeroForOne amountIn _ => some (key, zeroForOne, amountIn)
  | _ => none

def Scan.mark (seen : Scan) (stated : Bool) (amountIn : Int) : Scan :=
  if stated then { seen with starts := seen.starts ++ [(seen.hops.length, amountIn)] } else seen

def Scan.see (seen : Scan) (found : List Hop) : Scan := { seen with hops := seen.hops ++ found }

def note (eth : Eth) (book : RouteBook) (seen : Scan) : UrCommand → Try Scan
  | .permit2TransferFrom token _ amount =>
    .ok { seen with currencyIn := token, amountIn := amount }
  | .payPortion token recipient bips =>
    .ok { seen with fee := some ⟨token, recipient, bips⟩
                    feeLeg := if seen.hops = [] then .input else .output }
  | .v3Swap _ amountIn _ path _ => do
    let (tokens, fees) := decodeV3Path path
    let found ← v3Hops book tokens fees
    return (seen.mark (amountIn ≠ CONTRACT_BALANCE) amountIn).see found
  | .v2Swap _ amountIn _ path _ => do
    let found ← v2Hops book path
    return (seen.mark (amountIn ≠ CONTRACT_BALANCE) amountIn).see found
  | .v4Swap params =>
    match params.findSome? single with
    | none => .error .exhausted
    | some (key, zeroForOne, amountIn) => do
      let pool ← orEncoding (v4Pool eth key)
      let hop := if zeroForOne then ⟨pool, key.currency0, key.currency1⟩
        else ⟨pool, key.currency1, key.currency0⟩
      return (seen.mark (amountIn ≠ 0) amountIn).see [hop]
  | .sweep token recipient _ =>
    .ok (if recipient = MSG_SENDER then { seen with currencyOut := some token } else seen)
  | .unwrapWeth recipient _ =>
    .ok (if recipient = MSG_SENDER then { seen with currencyOut := some NATIVE } else seen)
  | _ => .ok seen

def scan (eth : Eth) (book : RouteBook) (seen : Scan) : List UrCommand → Try Scan
  | [] => .ok seen
  | command :: rest => do
    let next ← note eth book seen command
    scan eth book next rest

def sliceLegs (hops : List Hop) : List (Nat × Int) → Try (List SplitLeg)
  | [] => .ok []
  | (start, share) :: rest => do
    let stop := match rest with
      | [] => hops.length
      | (next, _) :: _ => next
    let route ← Route.build ((hops.take stop).drop start)
    let after ← sliceLegs hops rest
    return ⟨route, share, 0⟩ :: after

def firstRoute (split : Split) : Try Route :=
  match split.legs with
  | [] => .error .index
  | leg :: _ => .ok leg.route

def routesOf (seen : Scan) : Try (Option Split × Route) :=
  if 1 < seen.starts.length then do
    let legs ← sliceLegs seen.hops seen.starts
    let split ← Split.build legs
    let route ← firstRoute split
    return (some split, route)
  else do
    let route ← Route.build seen.hops
    return (none, route)

def shapeOf (wallet : Address) (seen : Scan) : Try (SwapShape × Option Split) :=
  match seen.fee with
  | none => .error (.tx "unknown_target" "calldata is not an rhpools swap")
  | some fee =>
    if seen.hops = [] then .error (.tx "unknown_target" "calldata is not an rhpools swap")
    else do
      let (split, route) ← routesOf seen
      let shape : SwapShape :=
        { wallet := wallet, route := route, currencyIn := seen.currencyIn
          currencyOut := seen.currencyOut.getD route.currencyOut, amountIn := seen.amountIn
          feeLeg := seen.feeLeg, feeCurrency := fee.token, feeRecipient := fee.recipient
          feeBps := fee.bips }
      return (shape, split)

/-- `TxCore._swap_shape`; the split is absent for a single route. -/
def swapShape (eth : Eth) (book : RouteBook) (wallet : Address) (data : Bytes) (value : Int) :
    Try (SwapShape × Option Split) := do
  let (commands, _) ← decodeUrExecute eth.abi data
  let seen ← scan eth book (opening value) commands
  shapeOf wallet seen

variable (eth : Eth) (book : RouteBook) (wallet : Address) (seen : Scan)

theorem scan_append (first rest : List UrCommand) :
    scan eth book seen (first ++ rest) =
      (scan eth book seen first >>= fun next => scan eth book next rest) := by
  induction first generalizing seen with
  | nil => rfl
  | cons command later ih =>
    simp only [List.cons_append, scan]
    cases note eth book seen command with
    | error failure => rfl
    | ok next => exact ih next

theorem single_setMinOut (minOut : Int) (param : V4Param) :
    single (setMinOut minOut param) = single param := by
  cases param <;> rfl

theorem note_bare (command : UrCommand) :
    note eth book seen (bare command) = note eth book seen command := by
  cases command with
  | v4Swap params => simp [bare, note, List.findSome?_map, Function.comp_def, single_setMinOut]
  | _ => rfl

variable (intent : SwapIntent) (route : Route) (policy : TxPolicy) (held : Address) (hop : Hop)
  (commands : List UrCommand)

theorem scan_bare :
    scan eth book seen (commands.map bare) = scan eth book seen commands := by
  induction commands generalizing seen with
  | nil => rfl
  | cons command rest ih => simp only [List.map_cons, scan, note_bare, ih]

theorem scan_of_bare (commands others : List UrCommand) (same : commands.map bare = others.map bare)
    :
    scan eth book seen commands = scan eth book seen others := by
  rw [← scan_bare, same, scan_bare]

theorem not_sender : ADDRESS_THIS ≠ MSG_SENDER := by decide

@[simp] theorem note_convert (amount : Int) :
    note eth book seen (convert held amount) = .ok seen := by
  unfold convert
  split <;> simp [note, not_sender]

@[simp] theorem scan_entry : scan eth book seen (entry held hop) = .ok seen := by
  unfold entry
  split <;> simp [scan]

@[simp] theorem scan_legEntry (share : Int) :
    scan eth book seen (legEntry held hop share) = .ok seen := by
  unfold legEntry
  split <;> simp [scan]

@[simp] theorem scan_splitExit (currencyOut held : Address) :
    scan eth book seen (splitExit currencyOut held) = .ok seen := by
  unfold splitExit
  split
  · rfl
  · split <;> simp [scan]

def rediscover (eth : Eth) (book : RouteBook) (hop : Hop) : Try Hop :=
  match hop.pool.venue with
  | .v3 => v3Hop book hop.currencyIn hop.currencyOut hop.pool.feePpm
  | .v2 => v2Hop book hop.currencyIn hop.currencyOut
  | .v4 => do
    let pool ← orEncoding (v4Pool eth hop.pool.key)
    return ⟨pool, hop.currencyIn, hop.currencyOut⟩

theorem v4_currencies (pool : Pool) (valid : hop.pool.other hop.currencyIn = some hop.currencyOut) :
    (if decide (hop.currencyIn = hop.pool.token0) = true then
        (⟨pool, hop.pool.key.currency0, hop.pool.key.currency1⟩ : Hop)
      else ⟨pool, hop.pool.key.currency1, hop.pool.key.currency0⟩) =
      ⟨pool, hop.currencyIn, hop.currencyOut⟩ := by
  unfold Pool.other at valid
  by_cases zero : hop.currencyIn = hop.pool.token0
  · simp only [zero, if_true, Option.some.injEq] at valid
    simp [zero, valid, Pool.key]
  · by_cases one : hop.currencyIn = hop.pool.token1
    · rw [if_neg zero, if_pos one, Option.some.injEq] at valid
      rw [if_neg (by simpa using zero), one, ← valid]
      rfl
    · simp [zero, one] at valid

theorem note_hopCommand (recipient : Address) (minOut : Int) (command : UrCommand)
    (valid : hop.pool.other hop.currencyIn = some hop.currencyOut)
    (made : hopCommand hop recipient minOut = .ok command) :
    note eth book seen command =
      (rediscover eth book hop >>= fun found => .ok (seen.see [found])) := by
  rcases hopCommand_cases hop recipient minOut command made with
    ⟨venue, path, packed, rfl⟩ | ⟨venue, rfl⟩ | ⟨venue, rfl⟩
  · simp only [note, decodeV3Path_v3Path _ _ _ packed, rediscover, venue, v3Hops]
    cases v3Hop book hop.currencyIn hop.currencyOut hop.pool.feePpm <;> simp [Scan.mark]
  · simp only [note, rediscover, venue, v2Hops]
    cases v2Hop book hop.currencyIn hop.currencyOut <;> simp [Scan.mark]
  · simp only [note, v4Hop, List.findSome?_cons, single, rediscover, venue]
    cases orEncoding (v4Pool eth hop.pool.key) with
    | error failure => rfl
    | ok pool =>
      simp only [Try.ok_bind, Try.pure_ok, v4_currencies hop pool valid]
      simp [Scan.mark, OPEN_DELTA]

theorem note_withAmountIn (recipient : Address) (minOut share : Int) (command : UrCommand)
    (some : share ≠ 0) (stated : share ≠ CONTRACT_BALANCE)
    (valid : hop.pool.other hop.currencyIn = .some hop.currencyOut)
    (made : hopCommand hop recipient minOut = .ok command) :
    note eth book seen (withAmountIn share command) =
      (rediscover eth book hop >>= fun found => .ok ((seen.mark true share).see [found])) := by
  rcases hopCommand_cases hop recipient minOut command made with
    ⟨venue, path, packed, rfl⟩ | ⟨venue, rfl⟩ | ⟨venue, rfl⟩
  · simp only [withAmountIn, note, decodeV3Path_v3Path _ _ _ packed, rediscover, venue, v3Hops]
    cases v3Hop book hop.currencyIn hop.currencyOut hop.pool.feePpm <;> simp [stated]
  · simp only [withAmountIn, note, rediscover, venue, v2Hops]
    cases v2Hop book hop.currencyIn hop.currencyOut <;> simp [stated]
  · simp only [withAmountIn, v4Hop, List.map_cons, List.map_nil, setAmountIn, note,
      List.findSome?_cons, single, rediscover, venue]
    cases orEncoding (v4Pool eth hop.pool.key) with
    | error failure => rfl
    | ok pool =>
      simp only [Try.ok_bind, Try.pure_ok, v4_currencies hop pool valid]
      simp [some]

def Matched (hops : List Hop) : Prop :=
  ∀ hop ∈ hops, hop.pool.other hop.currencyIn = some hop.currencyOut

@[simp] theorem see_see (first rest : List Hop) :
    (seen.see first).see rest = seen.see (first ++ rest) := by
  simp [Scan.see]

@[simp] theorem see_nil : seen.see [] = seen := by
  simp [Scan.see]

theorem scan_emitted (payee : Hop → List Hop → Address) (held : Address) (hops : List Hop)
    (commands : List UrCommand) (valid : Matched hops) (emitted : Emitted payee held hops commands)
    :
    scan eth book seen commands =
      (hops.mapM (rediscover eth book) >>= fun found => .ok (seen.see found)) := by
  induction emitted generalizing seen with
  | nil held => simp [scan]
  | cons held hop rest command after made later ih =>
    have here := valid hop List.mem_cons_self
    have there : Matched rest := fun other member => valid other (List.mem_cons_of_mem hop member)
    rw [scan_append, scan_entry, Try.ok_bind, scan,
      note_hopCommand eth book seen hop _ _ command here made, List.mapM_cons]
    cases rediscover eth book hop with
    | error failure => rfl
    | ok found =>
      simp only [Try.ok_bind, ih _ there]
      cases rest.mapM (rediscover eth book) <;> simp

theorem scan_leg (share : Int) (commands : List UrCommand) (some : share ≠ 0)
    (stated : share ≠ CONTRACT_BALANCE) (form : LegCommands intent route share commands) :
    scan eth book seen commands =
      (route.hops.mapM (rediscover eth book) >>= fun found =>
        .ok ((seen.mark true share).see found)) := by
  have valid : Matched route.hops := route.hop_currencies
  cases form with
  | intro first rest command after hops made later =>
    rw [hops] at valid ⊢
    have here := valid first List.mem_cons_self
    have there : Matched rest :=
      fun other member => valid other (List.mem_cons_of_mem first member)
    rw [scan_append, scan_legEntry, Try.ok_bind, scan,
      note_withAmountIn eth book seen first _ _ share command some stated here made,
      List.mapM_cons]
    cases rediscover eth book first with
    | error failure => rfl
    | ok found =>
      simp only [Try.ok_bind, scan_append, scan_emitted eth book _ _ _ _ _ there later]
      cases rest.mapM (rediscover eth book) <;> simp

def marks : Nat → List (List Hop) → List Int → List (Nat × Int)
  | offset, group :: groups, share :: shares =>
    (offset, share) :: marks (offset + group.length) groups shares
  | _, _, _ => []

def rediscoverLegs (eth : Eth) (book : RouteBook) (legs : List SplitLeg) :
    Try (List (List Hop)) :=
  legs.mapM fun leg => leg.route.hops.mapM (rediscover eth book)

theorem scan_legs (net allocated : Int) (legs : List SplitLeg) (commands : List UrCommand)
    (detected : ∀ share ∈ legShares net intent.amountIn allocated legs,
      share ≠ 0 ∧ share ≠ CONTRACT_BALANCE) (form : LegsCommands intent net allocated legs commands)
    :
    scan eth book seen commands =
      (rediscoverLegs eth book legs >>= fun groups => .ok
        { seen with
          hops := seen.hops ++ groups.flatten
          starts := seen.starts ++ marks seen.hops.length groups
            (legShares net intent.amountIn allocated legs) }) := by
  induction form generalizing seen with
  | nil allocated => simp [scan, rediscoverLegs, marks]
  | cons allocated leg rest commands after served made later ih =>
    simp only [legShares, List.forall_mem_cons] at detected ⊢
    obtain ⟨⟨some, stated⟩, detected⟩ := detected
    rw [scan_append, scan_leg eth book seen intent leg.route _ commands some stated made]
    simp only [rediscoverLegs, List.mapM_cons]
    cases leg.route.hops.mapM (rediscover eth book) with
    | error failure => rfl
    | ok found =>
      simp only [Try.ok_bind, ih _ detected, rediscoverLegs]
      cases rest.mapM fun leg => leg.route.hops.mapM (rediscover eth book) with
      | error failure => rfl
      | ok groups => simp [Scan.see, Scan.mark, marks]

def legOf (entry : List Hop × Int) : Try SplitLeg := do
  let route ← Route.build entry.1
  return ⟨route, entry.2, 0⟩

theorem sliceLegs_marks (before : List Hop) (groups : List (List Hop)) (amounts : List Int)
    (lengths : groups.length = amounts.length) :
    sliceLegs (before ++ groups.flatten) (marks before.length groups amounts) =
      (groups.zip amounts).mapM legOf := by
  induction groups generalizing before amounts with
  | nil => simp [marks, sliceLegs]
  | cons group groups ih =>
    cases amounts with
    | nil => simp at lengths
    | cons amount amounts =>
      have tail := ih (before ++ group) amounts (by simpa using lengths)
      have stop : (match marks (before.length + group.length) groups amounts with
          | [] => (before ++ (group ++ groups.flatten)).length
          | (next, _) :: _ => next) = (before ++ group).length ∨ groups = [] := by
        cases groups with
        | nil => exact Or.inr rfl
        | cons next rest =>
          cases amounts with
          | nil => simp at lengths
          | cons second others => exact Or.inl (by simp [marks])
      have slice : ((before ++ (group ++ groups.flatten)).take
          (match marks (before.length + group.length) groups amounts with
            | [] => (before ++ (group ++ groups.flatten)).length
            | (next, _) :: _ => next)).drop before.length = group := by
        rcases stop with inner | rfl
        · rw [inner, ← List.append_assoc, List.take_left' rfl, List.drop_left' rfl]
        · simp only [marks, List.flatten_nil, List.append_nil]
          rw [List.take_length, List.drop_left' rfl]
      simp only [List.flatten_cons, marks, sliceLegs, slice, List.zip_cons_cons,
        List.mapM_cons, legOf]
      rw [List.length_append, List.append_assoc] at tail
      rw [tail]
      cases Route.build group <;> rfl

/-- The assumption on the index: a lookup by a pool's own key finds the pool. -/
def Indexed (eth : Eth) (book : RouteBook) (hop : Hop) : Prop :=
  match hop.pool.venue with
  | .v3 => book.poolFor .v3 hop.currencyIn hop.currencyOut (some hop.pool.feePpm)
      (some hop.pool.factory) none = some hop.pool
  | .v2 => book.poolFor .v2 hop.currencyIn hop.currencyOut none (some hop.pool.factory) none =
      some hop.pool
  | .v4 => v4Pool eth hop.pool.key = some hop.pool

instance (eth : Eth) (book : RouteBook) (hop : Hop) : Decidable (Indexed eth book hop) := by
  unfold Indexed; split <;> infer_instance

def UrPool (pool : Pool) : Prop :=
  match pool.venue with
  | .v3 => pool.factory = UR_V3_FACTORY
  | .v2 => pool.factory = UR_V2_FACTORY
  | .v4 => True

instance (pool : Pool) : Decidable (UrPool pool) := by
  unfold UrPool; split <;> infer_instance

theorem poolFor_factory (venue : Venue) (a b : Address) (feePpm tickSpacing : Option Int)
    (factory : Address) (pool : Pool)
    (found : book.poolFor venue a b feePpm (some factory) tickSpacing = some pool) :
    pool.factory = factory := by
  unfold RouteBook.poolFor at found
  have accepted := List.find?_some found
  simp only [accepts, Bool.and_eq_true, decide_eq_true_eq] at accepted
  exact accepted.2.2

theorem v3Hop_factory (a b : Address) (feePpm : Int) (hop : Hop)
    (found : v3Hop book a b feePpm = .ok hop) : hop.pool.factory = UR_V3_FACTORY := by
  unfold v3Hop at found
  split at found
  · rename_i pool looked
    cases found
    exact poolFor_factory _ _ _ _ _ _ _ _ looked
  · cases found

theorem v2Hop_factory (a b : Address) (hop : Hop) (found : v2Hop book a b = .ok hop) :
    hop.pool.factory = UR_V2_FACTORY := by
  unfold v2Hop at found
  split at found
  · rename_i pool looked
    cases found
    exact poolFor_factory _ _ _ _ _ _ _ _ looked
  · cases found

theorem rediscover_self (indexed : Indexed eth book hop) :
    rediscover eth book hop = .ok hop ↔ UrPool hop.pool := by
  unfold Indexed at indexed
  unfold rediscover UrPool
  cases venue : hop.pool.venue with
  | v4 =>
    simp only [venue] at indexed
    simp [indexed, orEncoding]
  | v3 =>
    simp only [venue] at indexed ⊢
    refine ⟨v3Hop_factory _ _ _ _ _, fun own => ?_⟩
    rw [own] at indexed
    simp [v3Hop, indexed]
  | v2 =>
    simp only [venue] at indexed ⊢
    refine ⟨v2Hop_factory _ _ _ _, fun own => ?_⟩
    rw [own] at indexed
    simp [v2Hop, indexed]

theorem mapM_ok_map {α β : Type} (read : α → Try β) (expected : α → β) (items : List α) :
    items.mapM read = .ok (items.map expected) ↔
      ∀ item ∈ items, read item = .ok (expected item) := by
  induction items with
  | nil => simp
  | cons item rest ih =>
    simp only [List.mapM_cons, Try.bind_ok, Try.pure_ok, Except.ok.injEq, List.map_cons,
      List.cons.injEq, List.forall_mem_cons, ← ih]
    constructor
    · rintro ⟨value, here, others, there, rfl, rfl⟩
      exact ⟨here, there⟩
    · rintro ⟨here, there⟩
      exact ⟨_, here, _, there, rfl, rfl⟩

theorem mapM_length {α β : Type} (read : α → Try β) (items : List α) (values : List β)
    (done : items.mapM read = .ok values) : values.length = items.length := by
  induction items generalizing values with
  | nil =>
    simp only [List.mapM_nil, Try.pure_ok, Except.ok.injEq] at done
    simp [← done]
  | cons item rest ih =>
    simp only [List.mapM_cons, Try.bind_ok, Try.pure_ok, Except.ok.injEq] at done
    obtain ⟨value, -, others, there, rfl⟩ := done
    simp [ih others there]

theorem rediscover_hops (hops : List Hop) (indexed : ∀ hop ∈ hops, Indexed eth book hop) :
    hops.mapM (rediscover eth book) = .ok hops ↔ ∀ hop ∈ hops, UrPool hop.pool := by
  have each := mapM_ok_map (rediscover eth book) id hops
  rw [List.map_id] at each
  rw [each]
  exact forall₂_congr fun hop member => rediscover_self eth book hop (indexed hop member)

theorem rediscoverLegs_self (legs : List SplitLeg)
    (indexed : ∀ leg ∈ legs, ∀ hop ∈ leg.route.hops, Indexed eth book hop) :
    rediscoverLegs eth book legs = .ok (legs.map fun leg => leg.route.hops) ↔
      ∀ leg ∈ legs, ∀ hop ∈ leg.route.hops, UrPool hop.pool := by
  rw [rediscoverLegs, mapM_ok_map]
  exact forall₂_congr fun leg member => rediscover_hops eth book leg.route.hops (indexed leg member)

def funded (intent : SwapIntent) : Scan :=
  ⟨intent.currencyIn, intent.amountIn, none, .input, [], [], none⟩

def closing (intent : SwapIntent) (policy : TxPolicy) (feeCurrency : Address) (hops : List Hop)
    (starts : List (Nat × Int)) (out : Option Address) : Scan :=
  { currencyIn := intent.currencyIn, amountIn := intent.amountIn
    fee := some ⟨feeCurrency, policy.feeRecipient, policy.feeBps⟩, feeLeg := intent.feeLeg
    hops := hops, starts := starts, currencyOut := out }

theorem scan_pullInput :
    scan eth book (opening (attached intent)) (pullInput intent) = .ok (funded intent) := by
  unfold pullInput attached opening funded
  by_cases native : intent.currencyIn = NATIVE
  · simp [native, scan]
  · simp [native, scan, note]

theorem scan_outputTail (served : sameAsset held intent.currencyOut) :
    scan eth book seen (outputTail intent policy held) =
      .ok { seen with
        fee := some ⟨paidForm intent held, policy.feeRecipient, policy.feeBps⟩
        feeLeg := if seen.hops = [] then .input else .output
        currencyOut := some intent.currencyOut } := by
  have apart : WETH ≠ NATIVE := by decide
  unfold outputTail paidForm
  rcases served with same | ⟨native, weth⟩ | ⟨weth, native⟩
  · subst same
    have unwrapped : ¬(intent.currencyOut = WETH ∧ intent.currencyOut = NATIVE) := by
      rintro ⟨weth, native⟩
      exact apart (weth.symm.trans native)
    have wrapped : ¬(intent.currencyOut = NATIVE ∧ intent.currencyOut = WETH) := by
      rintro ⟨native, weth⟩
      exact unwrapped ⟨weth, native⟩
    simp [unwrapped, wrapped, scan, note]
  · subst native
    simp [weth, apart, scan, note]
  · subst weth
    simp [native, apart.symm, scan, note]

variable (feeCurrency : Address)

theorem scan_routeCommands (served : serves intent route)
    (form : RouteCommands intent route policy commands feeCurrency) :
    ∃ out, (out = some intent.currencyOut ∨
        (out = none ∧ route.currencyOut = intent.currencyOut)) ∧
      scan eth book (opening (attached intent)) commands =
        (route.hops.mapM (rediscover eth book) >>= fun found =>
          .ok (closing intent policy feeCurrency found [] out)) := by
  have valid : Matched route.hops := route.hop_currencies
  cases form with
  | paidDirectly added emitted input out =>
    refine ⟨none, Or.inr ⟨rfl, out⟩, ?_⟩
    simp only [scan_append, scan_pullInput, Try.ok_bind, takeInputFee, input, if_true, scan,
      note, scan_emitted eth book _ _ _ _ _ valid emitted]
    cases route.hops.mapM (rediscover eth book) with
    | error failure => rfl
    | ok found => simp [funded, closing, Scan.see, input]
  | paidAfterFee added emitted output =>
    refine ⟨some intent.currencyOut, Or.inl rfl, ?_⟩
    simp only [scan_append, scan_pullInput, Try.ok_bind,
      scan_emitted eth book _ _ _ _ _ valid emitted]
    cases read : route.hops.mapM (rediscover eth book) with
    | error failure => rfl
    | ok found =>
      have nonempty : found ≠ [] := by
        have size := mapM_length _ _ _ read
        have low := route.valid.1.1
        exact List.ne_nil_of_length_pos (by omega)
      simp only [Try.ok_bind, scan_outputTail eth book _ intent policy _ served.2]
      simp [funded, closing, Scan.see, nonempty, output]

theorem shapeOf_route (found : List Hop) (out : Option Address) (some : found ≠ []) :
    shapeOf wallet (closing intent policy feeCurrency found [] out) =
      (Route.build found >>= fun route => .ok
        (⟨wallet, route, intent.currencyIn, out.getD route.currencyOut, intent.amountIn,
          intent.feeLeg, feeCurrency, policy.feeRecipient, policy.feeBps⟩, none)) := by
  simp only [shapeOf, closing, some, if_false, routesOf, List.length_nil]
  cases Route.build found <;> rfl

/-- Reading a single-route plan gives its shape exactly when every pool is one the
reader looks up. -/
theorem read_route (served : serves intent route)
    (form : RouteCommands intent route policy commands feeCurrency)
    (indexed : ∀ hop ∈ route.hops, Indexed eth book hop) :
    (scan eth book (opening (attached intent)) commands >>= shapeOf intent.wallet) =
        .ok (intent.shape route policy intent.feeLeg feeCurrency, none) ↔
      ∀ hop ∈ route.hops, UrPool hop.pool := by
  obtain ⟨out, paid, scanned⟩ := scan_routeCommands eth book intent route policy commands
    feeCurrency served form
  rw [scanned, ← rediscover_hops eth book route.hops indexed]
  constructor
  · intro result
    simp only [Try.bind_ok, Except.ok.injEq] at result
    obtain ⟨seen, ⟨found, read, rfl⟩, shaped⟩ := result
    have nonempty : found ≠ [] := by
      rintro rfl
      simp [shapeOf, closing] at shaped
    rw [shapeOf_route _ _ _ _ _ _ nonempty] at shaped
    simp only [Try.bind_ok, Except.ok.injEq, Prod.mk.injEq, SwapIntent.shape,
      SwapShape.mk.injEq] at shaped
    obtain ⟨back, built, ⟨-, rfl, -⟩, -⟩ := shaped
    rw [Route.build_ok] at built
    rw [read, built]
  · intro read
    rw [read, Try.ok_bind, Try.ok_bind, shapeOf_route _ _ _ _ _ _ route.ne_nil,
      Route.build_hops]
    rcases paid with rfl | ⟨rfl, same⟩
    · rfl
    · simp [SwapIntent.shape, same]

theorem length_marks (offset : Nat) (groups : List (List Hop)) (amounts : List Int)
    (lengths : groups.length = amounts.length) :
    (marks offset groups amounts).length = groups.length := by
  induction groups generalizing offset amounts with
  | nil => simp [marks]
  | cons group groups ih =>
    cases amounts with
    | nil => simp at lengths
    | cons amount amounts => simp [marks, ih _ amounts (by simpa using lengths)]

theorem scan_splitTail :
    scan eth book seen (splitTail intent policy) =
      .ok { seen with
        fee := if intent.feeLeg = .output then
            some ⟨splitOutput intent, policy.feeRecipient, policy.feeBps⟩ else seen.fee
        feeLeg := if intent.feeLeg = .output then
            (if seen.hops = [] then .input else .output) else seen.feeLeg
        currencyOut := some intent.currencyOut } := by
  unfold splitTail splitOutput
  cases intent.feeLeg <;> by_cases native : intent.currencyOut = NATIVE <;>
    simp [native, scan, note]

def written (intent : SwapIntent) (policy : TxPolicy) (split : Split) : List Int :=
  legShares (netInput intent policy) intent.amountIn 0 split.legs

def splitFeeCurrency (intent : SwapIntent) : Address :=
  if intent.feeLeg = .output then splitOutput intent else intent.currencyIn

variable (split : Split)

theorem length_written :
    (written intent policy split).length = split.legs.length := by
  rw [written, legShares_shares, length_shares, List.length_map]

theorem rediscoverLegs_ne_nil (legs : List SplitLeg) (groups : List (List Hop)) (some : legs ≠ [])
    (read : rediscoverLegs eth book legs = .ok groups) : groups.flatten ≠ [] := by
  cases legs with
  | nil => exact absurd rfl some
  | cons leg rest =>
    simp only [rediscoverLegs, List.mapM_cons, Try.bind_ok, Try.pure_ok,
      Except.ok.injEq] at read
    obtain ⟨group, first, others, -, rfl⟩ := read
    have size := mapM_length _ _ _ first
    have low := leg.route.valid.1.1
    have nonempty : group ≠ [] := List.ne_nil_of_length_pos (by omega)
    simp [nonempty]

theorem scan_split (policy : TxPolicy) (legs : List UrCommand) (several : 2 ≤ split.legs.length)
    (detected : ∀ share ∈ written intent policy split, share ≠ 0 ∧ share ≠ CONTRACT_BALANCE)
    (form : LegsCommands intent (netInput intent policy) 0 split.legs legs) :
    scan eth book (opening (attached intent))
        (pullInput intent ++ takeInputFee intent policy ++ legs ++ splitTail intent policy) =
      (rediscoverLegs eth book split.legs >>= fun groups => .ok
        (closing intent policy (splitFeeCurrency intent) groups.flatten
          (marks 0 groups (written intent policy split)) (some intent.currencyOut))) := by
  have nonempty : split.legs ≠ [] := List.ne_nil_of_length_pos (by omega)
  simp only [scan_append, scan_pullInput, Try.ok_bind]
  cases side : intent.feeLeg with
  | input =>
    simp only [takeInputFee, side, if_true, scan, note, Try.ok_bind,
      scan_legs eth book _ intent _ _ _ _ detected form]
    cases rediscoverLegs eth book split.legs with
    | error failure => rfl
    | ok groups =>
      simp [scan_splitTail, funded, closing, side, splitFeeCurrency, written]
  | output =>
    simp only [takeInputFee, side, reduceCtorEq, if_false, scan, Try.ok_bind,
      scan_legs eth book _ intent _ _ _ _ detected form]
    cases read : rediscoverLegs eth book split.legs with
    | error failure => rfl
    | ok groups =>
      have hops := rediscoverLegs_ne_nil eth book _ _ nonempty read
      simp only [Try.ok_bind, scan_splitTail, funded, closing, side, splitFeeCurrency,
        written, List.nil_append, if_true, hops, if_false, List.length_nil]

theorem shapeOf_split (groups : List (List Hop)) (amounts : List Int)
    (nonempty : groups.flatten ≠ []) (several : 2 ≤ groups.length)
    (lengths : groups.length = amounts.length) :
    shapeOf wallet (closing intent policy feeCurrency groups.flatten (marks 0 groups amounts)
        (some intent.currencyOut)) =
      ((groups.zip amounts).mapM legOf >>= fun legs => Split.build legs >>= fun split =>
        firstRoute split >>= fun route => .ok
          (⟨wallet, route, intent.currencyIn, intent.currencyOut, intent.amountIn,
            intent.feeLeg, feeCurrency, policy.feeRecipient, policy.feeBps⟩, some split)) := by
  have marked : 1 < (marks 0 groups amounts).length := by
    rw [length_marks 0 groups amounts lengths]
    omega
  have sliced := sliceLegs_marks [] groups amounts lengths
  simp only [List.nil_append, List.length_nil] at sliced
  simp only [shapeOf, closing, nonempty, if_false, routesOf, marked, if_true, sliced]
  cases (groups.zip amounts).mapM legOf with
  | error failure => rfl
  | ok legs =>
    simp only [Try.ok_bind]
    cases Split.build legs with
    | error failure => rfl
    | ok split =>
      simp only [Try.ok_bind]
      cases firstRoute split <;> rfl

theorem mapM_legOf (groups : List (List Hop)) (amounts : List Int) (legs : List SplitLeg)
    (lengths : groups.length = amounts.length) :
    (groups.zip amounts).mapM legOf = .ok legs ↔
      legs.map (fun leg => leg.route.hops) = groups ∧ legs.map SplitLeg.amountIn = amounts ∧
        ∀ leg ∈ legs, leg.amountOut = 0 := by
  induction groups generalizing amounts legs with
  | nil =>
    cases amounts with
    | nil => cases legs <;> simp
    | cons => simp at lengths
  | cons group groups ih =>
    cases amounts with
    | nil => simp at lengths
    | cons amount amounts =>
      have tail := fun others => ih amounts others (by simpa using lengths)
      simp only [List.zip_cons_cons, List.mapM_cons, Try.bind_ok, legOf, Route.build_ok,
        Try.pure_ok, Except.ok.injEq, tail]
      constructor
      · rintro ⟨leg, ⟨route, rfl, rfl⟩, others, ⟨rfl, rfl, zero⟩, rfl⟩
        simp only [List.map_cons, List.forall_mem_cons, true_and]
        exact zero
      · rintro ⟨hops, ins, zero⟩
        cases legs with
        | nil => simp at hops
        | cons leg others =>
          simp only [List.map_cons, List.cons.injEq] at hops ins
          simp only [List.forall_mem_cons] at zero
          obtain ⟨rfl, rfl⟩ := hops
          obtain ⟨rfl, rfl⟩ := ins
          refine ⟨leg, ⟨leg.route, rfl, ?_⟩, others, ⟨rfl, rfl, zero.2⟩, rfl⟩
          rw [← zero.1]

def writtenLegs (intent : SwapIntent) (policy : TxPolicy) (split : Split) : List SplitLeg :=
  List.zipWith (fun leg share => ⟨leg.route, share, 0⟩) split.legs (written intent policy split)

theorem map_route_writtenLegs :
    (writtenLegs intent policy split).map SplitLeg.route = split.legs.map SplitLeg.route := by
  have lengths := length_written intent policy split
  rw [writtenLegs, List.map_zipWith]
  apply List.ext_getElem
  · simp [lengths]
  · intro i _ _
    simp

theorem map_amountIn_writtenLegs :
    (writtenLegs intent policy split).map SplitLeg.amountIn = written intent policy split := by
  have lengths := length_written intent policy split
  rw [writtenLegs, List.map_zipWith]
  apply List.ext_getElem
  · simp [lengths]
  · intro i _ _
    simp

theorem amountOut_writtenLegs :
    ∀ leg ∈ writtenLegs intent policy split, leg.amountOut = 0 := by
  intro leg member
  rw [writtenLegs, List.mem_iff_getElem] at member
  obtain ⟨i, inside, rfl⟩ := member
  simp

theorem writtenLegs_valid (positive : ∀ share ∈ written intent policy split, 0 < share) :
    SplitValid (writtenLegs intent policy split) := by
  have lengths := length_written intent policy split
  have size : (writtenLegs intent policy split).length = split.legs.length := by
    simp [writtenLegs, lengths]
  refine ⟨by rw [size]; exact split.valid.1, fun leg member => positive _ ?_⟩
  rw [← map_amountIn_writtenLegs]
  exact List.mem_map_of_mem member

theorem firstRoute_of_routes (first : SplitLeg)
    (head : split.legs.head?.map SplitLeg.route = some first.route) :
    firstRoute split = .ok first.route := by
  unfold firstRoute
  cases legs : split.legs with
  | nil => simp [legs] at head
  | cons leg rest =>
    simp only [legs, List.head?_cons, Option.map_some, Option.some.injEq] at head
    simp [head]

/-- What reading a split back is to give: the shape, and the same routes in order
with the net shares as amounts. -/
def ReadsSplit (intent : SwapIntent) (policy : TxPolicy) (split : Split) (shape : SwapShape)
    (read : Try (SwapShape × Option Split)) : Prop :=
  ∃ back, read = .ok (shape, some back) ∧
    back.legs.map SplitLeg.route = split.legs.map SplitLeg.route ∧
    back.legs.map SplitLeg.amountIn = written intent policy split

theorem read_split (policy : TxPolicy) (first : SplitLeg) (legs : List UrCommand)
    (several : 2 ≤ split.legs.length) (head : split.legs.head? = some first)
    (positive : ∀ share ∈ written intent policy split, 0 < share)
    (stated : ∀ share ∈ written intent policy split, share ≠ CONTRACT_BALANCE)
    (form : LegsCommands intent (netInput intent policy) 0 split.legs legs)
    (indexed : ∀ leg ∈ split.legs, ∀ hop ∈ leg.route.hops, Indexed eth book hop) :
    ReadsSplit intent policy split
        (intent.shape first.route policy intent.feeLeg (splitFeeCurrency intent))
        (scan eth book (opening (attached intent))
          (pullInput intent ++ takeInputFee intent policy ++ legs ++ splitTail intent policy) >>=
            shapeOf intent.wallet) ↔
      ∀ leg ∈ split.legs, ∀ hop ∈ leg.route.hops, UrPool hop.pool := by
  have nonempty : split.legs ≠ [] := List.ne_nil_of_length_pos (by omega)
  have amounts := length_written intent policy split
  rw [scan_split eth book intent split policy legs several
      (fun share member => ⟨(positive share member).ne', stated share member⟩) form,
    ← rediscoverLegs_self eth book split.legs indexed]
  unfold ReadsSplit
  constructor
  · rintro ⟨back, result, routes, -⟩
    simp only [Try.bind_ok, Except.ok.injEq] at result
    obtain ⟨seen, ⟨groups, read, rfl⟩, shaped⟩ := result
    have size : groups.length = split.legs.length := mapM_length _ _ _ read
    rw [shapeOf_split _ _ _ _ _ _ (rediscoverLegs_ne_nil eth book _ _ nonempty read)
      (by omega) (by omega)] at shaped
    simp only [Try.bind_ok, Except.ok.injEq, Prod.mk.injEq, Option.some.injEq] at shaped
    obtain ⟨cut, sliced, made, built, _, _, _, rfl⟩ := shaped
    obtain ⟨same, -⟩ := Split.build_ok _ _ built
    rw [mapM_legOf _ _ _ (by omega)] at sliced
    rw [read, ← sliced.1, ← same]
    congr 1
    have hops := congrArg (List.map Route.hops) routes
    rwa [List.map_map, List.map_map] at hops
  · intro read
    have sliced : ((split.legs.map fun leg => leg.route.hops).zip
        (written intent policy split)).mapM legOf = .ok (writtenLegs intent policy split) := by
      rw [mapM_legOf _ _ _ (by simp [amounts])]
      refine ⟨?_, map_amountIn_writtenLegs intent policy split,
        amountOut_writtenLegs intent policy split⟩
      have hops := congrArg (List.map Route.hops) (map_route_writtenLegs intent policy split)
      rwa [List.map_map, List.map_map] at hops
    have valid := writtenLegs_valid intent policy split positive
    refine ⟨⟨writtenLegs intent policy split, valid⟩, ?_,
      map_route_writtenLegs intent policy split, map_amountIn_writtenLegs intent policy split⟩
    rw [read, Try.ok_bind, Try.ok_bind, shapeOf_split _ _ _ _ _ _
      (rediscoverLegs_ne_nil eth book _ _ nonempty read) (by simpa using several)
      (by simp [amounts]), sliced]
    have build : Split.build (writtenLegs intent policy split) =
        .ok ⟨writtenLegs intent policy split, valid⟩ := by
      simp [Split.build, valid]
    have start : firstRoute ⟨writtenLegs intent policy split, valid⟩ = .ok first.route := by
      refine firstRoute_of_routes _ first ?_
      have routes := congrArg List.head? (map_route_writtenLegs intent policy split)
      rw [List.head?_map, List.head?_map, head] at routes
      simpa using routes
    simp [build, start, SwapIntent.shape]

theorem swapShape_calldata (value : Int) (plan final : Plan) (body : SwapBody) (minOut : Int)
    (permit : Option Bytes) (data : Bytes) (shape : plan.body = .swap body)
    (finalized : finalize plan minOut permit = .ok final)
    (encoded : final.calldata eth.abi = .ok data) :
    swapShape eth book wallet data value =
      (scan eth book (opening value) body.commands >>= shapeOf wallet) := by
  obtain ⟨guarded, commands, slot, bound, rfl⟩ :=
    finalize_swap plan final body minOut permit shape finalized
  have same : commands.map bare = body.commands.map bare := by
    rw [bare_boundSplit _ _ _ _ bound, bare_setAt _ _ _ _ slot]
  have decoded := decodeUrExecute_urExecute eth.abi _ _ data encoded
  rw [swapShape, decoded, Try.ok_bind]
  dsimp only
  rw [← scan_of_bare eth book _ commands body.commands same]
  congr 1
  unfold Plan.commands
  dsimp only
  split
  · simp [scan, note]
  · rfl

def Recovered (intent : SwapIntent) (policy : TxPolicy) (order : Order) (shape : SwapShape)
    (read : Try (SwapShape × Option Split)) : Prop :=
  if 1 < (orderLegs order).length then
    ∃ back, read = .ok (shape, some back) ∧
      back.legs.map SplitLeg.route = (orderLegs order).map SplitLeg.route ∧
      back.legs.map SplitLeg.amountIn =
        legShares (netInput intent policy) intent.amountIn 0 (orderLegs order) ∧
      (back.legs.map SplitLeg.amountIn).sum = intent.amountIn - inputFee intent policy
  else read = .ok (shape, none)

/-- Every pool stands under a factory of the router, and the floor share of every
leg before the last is at least one. -/
def Readable (intent : SwapIntent) (policy : TxPolicy) (order : Order) : Prop :=
  (∀ hop ∈ orderHops order, UrPool hop.pool) ∧
    ∀ leg ∈ (orderLegs order).dropLast,
      intent.amountIn ≤ leg.amountIn * netInput intent policy

instance (intent : SwapIntent) (policy : TxPolicy) (order : Order) :
    Decidable (Readable intent policy order) := by
  unfold Readable; infer_instance

theorem written_pos (valid : Validated intent) (several : 2 ≤ split.legs.length)
    (covers : (split.legs.map SplitLeg.amountIn).sum = intent.amountIn) :
    (∀ share ∈ written intent policy split, 0 < share) ↔
      ∀ leg ∈ split.legs.dropLast, intent.amountIn ≤ leg.amountIn * netInput intent policy := by
  have weights : ∀ weight ∈ split.legs.map SplitLeg.amountIn, 0 < weight := by
    simpa using split.valid.2
  rw [written, legShares_shares, shares_pos_several _ _ _ (by simpa using several) valid.positive
    weights covers, ← List.map_dropLast, List.forall_mem_map]

theorem written_sum (several : 2 ≤ split.legs.length) :
    (written intent policy split).sum = netInput intent policy := by
  have nonempty : split.legs.map SplitLeg.amountIn ≠ [] :=
    List.ne_nil_of_length_pos (by simp; omega)
  rw [written, legShares_shares, sum_shares _ _ _ _ nonempty, sub_zero]

theorem written_stated (valid : Validated intent) (feeNonneg : 0 ≤ policy.feeBps)
    (several : 2 ≤ split.legs.length) (positive : ∀ share ∈ written intent policy split, 0 < share)
    :
    ∀ share ∈ written intent policy split, share ≠ CONTRACT_BALANCE := by
  intro share member
  have part := List.single_le_sum (fun x m => (positive x m).le) share member
  rw [written_sum intent policy split several] at part
  have whole := netInput_le intent policy valid feeNonneg
  have bound := valid.bounded
  unfold CONTRACT_BALANCE
  omega

theorem swapShape_plan (plan final : Plan) (deadline permitNonce minOut : Int)
    (permit : Option Bytes) (data : Bytes)
    (planned : TxPlan.plan eth.abi intent route policy deadline permitNonce = .ok plan)
    (target : plan.target = UR) (finalized : finalize plan minOut permit = .ok final)
    (encoded : final.calldata eth.abi = .ok data)
    (indexed : ∀ hop ∈ route.hops, Indexed eth book hop) :
    swapShape eth book intent.wallet data plan.value = .ok (plan.shape, none) ↔
      ∀ hop ∈ route.hops, UrPool hop.pool := by
  obtain ⟨commands, fee, single⟩ :=
    plan_routePlan eth.abi intent route policy deadline permitNonce plan target planned
  rw [swapShape_calldata eth book _ _ plan final _ minOut permit data single.body finalized
    encoded, single.value, Plan.shape, single.body]
  exact read_route eth book intent route policy commands fee single.serves single.form indexed

theorem swapShape_split (policy : TxPolicy) (plan final : Plan) (first : SplitLeg)
    (legs : List UrCommand) (minOut : Int) (permit : Option Bytes) (data : Bytes)
    (valid : Validated intent) (feeNonneg : 0 ≤ policy.feeBps)
    (planned : SplitPlan intent split policy plan first legs)
    (finalized : finalize plan minOut permit = .ok final)
    (encoded : final.calldata eth.abi = .ok data)
    (indexed : ∀ leg ∈ split.legs, ∀ hop ∈ leg.route.hops, Indexed eth book hop) :
    ReadsSplit intent policy split plan.shape
        (swapShape eth book intent.wallet data plan.value) ↔
      (∀ leg ∈ split.legs, ∀ hop ∈ leg.route.hops, UrPool hop.pool) ∧
        ∀ share ∈ written intent policy split, 0 < share := by
  have shape : plan.shape = intent.shape first.route policy intent.feeLeg
      (splitFeeCurrency intent) := by
    rw [Plan.shape, planned.body]
    rfl
  rw [swapShape_calldata eth book _ _ plan final _ minOut permit data planned.body finalized
    encoded, planned.value, shape]
  have reads := fun positive => read_split eth book intent split policy first legs
    planned.several planned.head positive
    (written_stated intent policy split valid feeNonneg planned.several positive)
    planned.form indexed
  constructor
  · intro result
    obtain ⟨back, -, -, amounts⟩ := id result
    have positive : ∀ share ∈ written intent policy split, 0 < share := by
      intro share member
      rw [← amounts] at member
      obtain ⟨leg, inside, rfl⟩ := List.mem_map.mp member
      exact back.valid.2 leg inside
    exact ⟨(reads positive).mp result, positive⟩
  · rintro ⟨pools, positive⟩
    exact (reads positive).mpr pools

/-- The calldata of a UniversalRouter plan reads back as the plan's shape, with
the net shares of its legs, exactly when the order is readable. -/
theorem swapShape_finalized (eth : Eth) (book : RouteBook) (policy : TxPolicy)
    (raw intent : SwapIntent) (order : Order) (plan final : Plan)
    (deadline permitNonce minOut : Int) (permit : Option Bytes) (data : Bytes)
    (validated : validateSwap policy raw = .ok intent) (feeNonneg : 0 ≤ policy.feeBps)
    (planned : order.plan eth.abi intent policy deadline permitNonce = .ok plan)
    (target : plan.target = UR) (finalized : finalize plan minOut permit = .ok final)
    (encoded : final.calldata eth.abi = .ok data)
    (indexed : ∀ hop ∈ orderHops order, Indexed eth book hop) :
    Recovered intent policy order plan.shape
        (swapShape eth book intent.wallet data plan.value) ↔
      Readable intent policy order := by
  have valid := validateSwap_ok policy raw intent validated
  cases order with
  | onRoute route =>
    have single := swapShape_plan eth book intent route policy plan final deadline permitNonce
      minOut permit data planned target finalized encoded indexed
    simpa [Recovered, Readable, orderLegs, orderHops] using single
  | onSplit split =>
    rcases planSplit_cases eth.abi intent split policy deadline permitNonce plan planned
      with ⟨leg, one, alone⟩ | ⟨first, legs, several⟩
    · have here : ∀ hop ∈ leg.route.hops, Indexed eth book hop := by
        simpa [orderHops, one] using indexed
      have single := swapShape_plan eth book intent leg.route policy plan final deadline
        permitNonce minOut permit data alone target finalized encoded here
      simpa [Recovered, Readable, orderLegs, orderHops, one] using single
    · have each : ∀ leg ∈ split.legs, ∀ hop ∈ leg.route.hops, Indexed eth book hop := by
        intro leg member hop inside
        exact indexed hop (List.mem_flatMap.mpr ⟨leg, member, inside⟩)
      have pools : (∀ hop ∈ orderHops (.onSplit split), UrPool hop.pool) ↔
          ∀ leg ∈ split.legs, ∀ hop ∈ leg.route.hops, UrPool hop.pool := by
        simp only [orderHops, List.mem_flatMap]
        exact ⟨fun all leg member hop inside => all hop ⟨leg, member, inside⟩,
          fun all hop ⟨leg, member, inside⟩ => all leg member hop inside⟩
      have reads := swapShape_split eth book intent split policy plan final first legs minOut
        permit data valid feeNonneg several finalized encoded each
      rw [written_pos intent policy split valid several.several several.covers, ← pools] at reads
      change Recovered intent policy (.onSplit split) plan.shape _ ↔ _ ∧ _
      have more : 1 < split.legs.length := several.several
      rw [orderLegs, ← reads, Recovered, ReadsSplit, orderLegs, if_pos more]
      constructor
      · rintro ⟨back, result, routes, amounts, -⟩
        exact ⟨back, result, routes, amounts⟩
      · rintro ⟨back, result, routes, amounts⟩
        refine ⟨back, result, routes, amounts, ?_⟩
        rw [amounts]
        exact written_sum intent policy split several.several

/-! A buy of one token with ETH over a V3 and a V2 pool of the router. -/

def sampleEth : Eth := ⟨AbiCodec.layout, fun _ => 0⟩

def sampleBook : RouteBook :=
  ⟨[], [samplePool .v3 UR_V3_FACTORY, samplePool .v2 UR_V2_FACTORY]⟩

def sampleCalldata (order : Order) : Try (Plan × Plan × Bytes) := do
  let plan ← order.plan sampleEth.abi (sampleTrade .buy) samplePolicy 5000 0
  let final ← finalize plan 90 none
  let data ← final.calldata sampleEth.abi
  return (plan, final, data)

theorem swapShape_finalized_sample :
    ∃ plan data,
      (sampleCalldata (.onSplit (sampleSplit 600 400 (by decide)))).map
        (fun made => (made.1, made.2.2)) = .ok (plan, data) ∧
      Recovered (sampleTrade .buy) samplePolicy (.onSplit (sampleSplit 600 400 (by decide))) plan.shape
        (swapShape sampleEth sampleBook (sampleTrade .buy).wallet data plan.value) := by
  have targets : (sampleCalldata (.onSplit (sampleSplit 600 400 (by decide)))).map
      (fun made => made.1.target) = .ok UR := by decide +kernel
  cases made : sampleCalldata (.onSplit (sampleSplit 600 400 (by decide))) with
  | error failure => simp [made, Except.map] at targets
  | ok result =>
    obtain ⟨plan, final, data⟩ := result
    simp only [made, Except.map, Except.ok.injEq] at targets
    simp only [sampleCalldata, Try.bind_ok, Try.pure_ok, Except.ok.injEq,
      Prod.mk.injEq] at made
    obtain ⟨_, planned, _, finalized, _, encoded, rfl, rfl, rfl⟩ := made
    refine ⟨_, _, rfl, ?_⟩
    exact (swapShape_finalized sampleEth sampleBook samplePolicy (sampleTrade .buy) (sampleTrade .buy) _ _ _
      5000 0 90 none _ (by decide) (by decide) planned targets finalized encoded
      (by decide)).mpr (by decide)

/-- One unit of a thousand on the first leg leaves that leg no share, and the
calldata cannot be read back. -/
theorem sampleSplit_unread :
    validateSwap samplePolicy (sampleTrade .buy) = .ok (sampleTrade .buy) ∧
    (∀ hop ∈ orderHops (.onSplit (sampleSplit 1 999 (by decide))),
      Indexed sampleEth sampleBook hop) ∧
    ∃ plan data,
      (sampleCalldata (.onSplit (sampleSplit 1 999 (by decide)))).map
        (fun made => (made.1, made.2.2)) = .ok (plan, data) ∧
      plan.target = UR ∧
      swapShape sampleEth sampleBook (sampleTrade .buy).wallet data plan.value =
        .error (.value "split needs one to three positive legs") ∧
      ¬Recovered (sampleTrade .buy) samplePolicy (.onSplit (sampleSplit 1 999 (by decide))) plan.shape
        (swapShape sampleEth sampleBook (sampleTrade .buy).wallet data plan.value) := by
  have targets : (sampleCalldata (.onSplit (sampleSplit 1 999 (by decide)))).map
      (fun made => made.1.target) = .ok UR := by decide +kernel
  have refused : ((sampleCalldata (.onSplit (sampleSplit 1 999 (by decide)))).bind fun made =>
      swapShape sampleEth sampleBook (sampleTrade .buy).wallet made.2.2 made.1.value) =
        .error (.value "split needs one to three positive legs") := by decide +kernel
  refine ⟨by decide, by decide, ?_⟩
  cases made : sampleCalldata (.onSplit (sampleSplit 1 999 (by decide))) with
  | error failure => simp [made, Except.map] at targets
  | ok result =>
    obtain ⟨plan, final, data⟩ := result
    simp only [made, Except.map, Except.ok.injEq] at targets
    simp only [made, Except.bind] at refused
    refine ⟨plan, data, rfl, targets, refused, ?_⟩
    rw [refused]
    simp [Recovered, orderLegs, sampleSplit]

end RhPools.SwapShapes
