import RhPools.SplitFunding

/-! Funding of whole UniversalRouter plans: from the attached ETH to an empty
router. A single route always passes one balance on; a split passes exactly when
its legs come in an order that leaves each of them its share. -/

namespace RhPools.PlanFunding
open AbiCodec TxChain TxRoutes UrCommands TxPlan PlannedSwaps CommandRuns RouterBalances
open ProportionalShares SplitFunding

def Empty (router : Router) : Prop := ∀ currency, router.held currency = 0

def opened (intent : SwapIntent) (policy : TxPolicy) : Router :=
  ⟨fun currency => if currency = intent.currencyIn then netInput intent policy else 0,
    fun _ => 0⟩

theorem Router.ext_held (first second : Router)
    (held : ∀ currency, first.held currency = second.held currency)
    (paid : first.paid = second.paid) : first = second := by
  cases first
  cases second
  have same := funext held
  simp_all

def funded (intent : SwapIntent) : Router :=
  ⟨fun currency => if currency = intent.currencyIn then intent.amountIn else 0, fun _ => 0⟩

variable (intent : SwapIntent) (post : Router → Prop)

theorem always_pullInput (rest : List UrCommand) :
    Always funding post (pullInput intent ++ rest) (started (attached intent)) ↔
      Always funding post rest (funded intent) := by
  unfold pullInput attached
  by_cases native : intent.currencyIn = NATIVE
  · have same : started intent.amountIn = funded intent := by
      simp [started, funded, native]
    simp [native, same]
  · simp only [native, if_false, List.cons_append, List.nil_append]
    rw [always_fixed post _ rest _ (funded intent) ?_]
    · simp [covered, takes]
    · intro output
      refine Router.ext_held _ _ (fun currency => ?_) rfl
      by_cases own : currency = intent.currencyIn <;>
        simp [after, takes, gives, held_credit_this, started, funded, own]

variable (split : Split) (policy : TxPolicy)

theorem always_takeInputFee (valid : Validated intent) (high : policy.feeBps ≤ 10000)
    (post : Router → Prop) (rest : List UrCommand) :
    Always funding post (takeInputFee intent policy ++ rest) (funded intent) ↔
      Always funding post rest (opened intent policy) := by
  unfold takeInputFee
  cases side : intent.feeLeg with
  | input =>
    have part := floorBps_le intent.amountIn policy.feeBps valid.positive.le high
    simp only [if_true, List.cons_append, List.nil_append]
    rw [always_fixed post _ rest _ (opened intent policy) ?_]
    · simp [covered, takes, funded, part]
    · intro output
      refine Router.ext_held _ _ (fun currency => ?_) rfl
      by_cases own : currency = intent.currencyIn <;>
        simp [after, takes, gives, held_debit, funded, opened, own, netInput, inputFee, side]
  | output =>
    have same : funded intent = opened intent policy := by
      simp [funded, opened, netInput, inputFee, side]
    simp [same]

theorem opened_stands (valid : Validated intent) (form : Address) (kept : Form intent form) :
    Stands intent.currencyIn (netInput intent policy) form (opened intent policy) := by
  have ne := place_ne intent _ form valid (Or.inl rfl) (Form.same _ _ kept)
  refine ⟨by simp [opened], by simp [opened, ne.symm], fun currency notIn _ => by
    simp [opened, notIn]⟩

theorem always_payPortion (token recipient : Address) (bips : Int) (rest : List UrCommand)
    (router : Router) (nonneg : 0 ≤ router.held token) (high : bips ≤ 10000) :
    Always funding post (.payPortion token recipient bips :: rest) router ↔
      Always funding post rest (router.debit token (floorBps (router.held token) bips)) := by
  rw [always_fixed post _ rest router
    (router.debit token (floorBps (router.held token) bips))
    fun output => by simp [after, takes, gives]]
  have part := floorBps_le (router.held token) bips nonneg high
  simp [covered, takes, part]

theorem always_payOut (token : Address) (router : Router) :
    Always funding post
        [if token = NATIVE then .unwrapWeth MSG_SENDER 0 else .sweep token MSG_SENDER 0]
        router ↔
      post ((router.debit (if token = NATIVE then WETH else token)
        (router.held (if token = NATIVE then WETH else token))).credit MSG_SENDER token
          (router.held (if token = NATIVE then WETH else token))) := by
  by_cases native : token = NATIVE
  · simp only [native, if_true]
    rw [always_fixed post _ [] router
      ((router.debit WETH (router.held WETH)).credit MSG_SENDER NATIVE (router.held WETH))
      fun output => by simp [after, takes, gives]]
    simp [covered, takes]
  · simp only [native, if_false]
    rw [always_fixed post _ [] router
      ((router.debit token (router.held token)).credit MSG_SENDER token (router.held token))
      fun output => by simp [after, takes, gives]]
    simp [covered, takes]

theorem always_splitTail (place form : Address) (router : Router) (valid : Validated intent)
    (high : policy.feeBps ≤ 10000) (at_ : Place intent place) (kept : Form intent form)
    (stands : Stands place 0 form router) (received : 0 < router.held form) :
    Always funding Empty (splitTail intent policy) router ↔ form = splitOutput intent := by
  have outForm : Form intent (splitOutput intent) := by
    unfold splitOutput Form
    by_cases native : intent.currencyOut = NATIVE <;> simp [native]
  have outNe := place_ne intent place _ valid at_ (Form.same _ _ outForm)
  obtain ⟨left, output, elsewhere⟩ := stands
  have nonneg : 0 ≤ router.held (splitOutput intent) :=
    Stands.nonneg place 0 form router ⟨left, output, elsewhere⟩ _ outNe.symm
  have tail : ∀ spent : Router, (∀ currency, currency ≠ splitOutput intent →
      spent.held currency = router.held currency) →
      (Always funding Empty [if intent.currencyOut = NATIVE then .unwrapWeth MSG_SENDER 0
        else .sweep (splitOutput intent) MSG_SENDER 0] spent ↔ form = splitOutput intent) := by
    intro spent same
    have paidOut := always_payOut Empty intent.currencyOut spent
    have out : (if intent.currencyOut = NATIVE then WETH else intent.currencyOut) =
        splitOutput intent := rfl
    rw [out] at paidOut
    have last : (if intent.currencyOut = NATIVE then UrCommand.unwrapWeth MSG_SENDER 0
        else .sweep (splitOutput intent) MSG_SENDER 0) =
        if intent.currencyOut = NATIVE then .unwrapWeth MSG_SENDER 0
        else .sweep intent.currencyOut MSG_SENDER 0 := by
      by_cases native : intent.currencyOut = NATIVE <;> simp [native, splitOutput]
    rw [last, paidOut]
    constructor
    · intro empty
      by_contra ne
      have zero := empty form
      simp only [held_credit_sender, held_debit, if_neg ne, same form ne] at zero
      omega
    · rintro rfl currency
      by_cases own : currency = splitOutput intent
      · simp [held_debit, own]
      · simp only [held_credit_sender, held_debit, if_neg own, same currency own]
        by_cases here : currency = place
        · rw [here, left]
        · exact elsewhere currency here own
  unfold splitTail
  cases side : intent.feeLeg with
  | input =>
    simp only [reduceCtorEq, if_false, List.nil_append]
    exact tail router fun _ _ => rfl
  | output =>
    simp only [if_true, List.cons_append, List.nil_append]
    rw [always_payPortion Empty _ _ _ _ router nonneg high]
    exact tail _ fun currency ne => by simp [held_debit, ne]

variable (held : Address) (router : Router) (plan : Plan) (first : SplitLeg) (legs : List UrCommand)

theorem some_legs (planned : SplitPlan intent split policy plan first legs) : split.legs ≠ [] := by
  have several := planned.several
  exact List.ne_nil_of_length_pos (by omega)

theorem split_allocated (valid : Validated intent) (high : policy.feeBps ≤ 10000)
    (planned : SplitPlan intent split policy plan first legs) :
    Allocated intent (netInput intent policy) 0 split.legs :=
  ⟨valid.positive, netInput_nonneg intent policy valid high, le_rfl, split.valid.2,
    by rw [planned.covers]; simp⟩

theorem split_shares (valid : Validated intent) (low : 0 ≤ policy.feeBps)
    (high : policy.feeBps ≤ 10000) (planned : SplitPlan intent split policy plan first legs) :
    ∀ share ∈ legShares (netInput intent policy) intent.amountIn 0 split.legs,
      0 ≤ share ∧ share ≠ CONTRACT_BALANCE := by
  intro share member
  have nonneg := (split_allocated _ _ _ _ _ _ valid high planned).shares_nonneg intent _ 0 split.legs
  have part := List.single_le_sum nonneg share member
  rw [Allocated.sum intent _ 0 split.legs (some_legs _ _ _ _ _ _ planned)] at part
  have whole := netInput_le intent policy valid low
  have bound := valid.bounded
  refine ⟨nonneg share member, ?_⟩
  unfold CONTRACT_BALANCE
  omega

/-- The legs are over: no input is left, and the output stands in the form the last
leg gave it. -/
def Ended (intent : SwapIntent) (last : SplitLeg) (router : Router) : Prop :=
  ∃ place, Place intent place ∧
    Stands place 0 (exitForm intent last.route.currencyOut) router ∧
    0 < router.held (exitForm intent last.route.currencyOut)

theorem legs_end (first last : SplitLeg) (legs : List UrCommand) (valid : Validated intent)
    (low : 0 ≤ policy.feeBps) (high : policy.feeBps ≤ 10000)
    (planned : SplitPlan intent split policy plan first legs)
    (end_ : split.legs.getLast? = some last)
    (fed : walk intent (netInput intent policy) intent.currencyIn (netInput intent policy) 0
      split.legs) :
    Always funding (Ended intent last) legs (opened intent policy) := by
  have some := some_legs _ _ _ _ _ _ planned
  have nonneg := (split_allocated _ _ _ _ _ _ valid high planned).shares_nonneg intent _ 0 split.legs
  have place : Place intent intent.currencyIn := Or.inl rfl
  have form : Form intent intent.currencyOut := Or.inl rfl
  have whole : netInput intent policy =
      (legShares (netInput intent policy) intent.amountIn 0 split.legs).sum := by
    rw [Allocated.sum intent _ 0 split.legs some, sub_zero]
  have unspent := walked_unspent intent (netInput intent policy) intent.currencyIn _ 0
    intent.currencyOut split.legs nonneg (Or.inr whole) fed
  have kept := walked_form intent (netInput intent policy) intent.currencyIn
    (netInput intent policy) 0 intent.currencyOut split.legs last end_
  have moved := walked_place intent (netInput intent policy) intent.currencyIn
    (netInput intent policy) 0 intent.currencyOut split.legs place
  refine always_mono ?_ (legs_stand intent (netInput intent policy) intent.currencyIn _ 0
    intent.currencyOut _ split.legs legs valid place form
    (split_shares _ _ _ _ _ _ valid low high planned) planned.form fed
    (opened_stands intent policy valid _ form))
  intro done facts
  obtain ⟨stands, received⟩ : Stands _ _ _ done ∧ _ := facts
  rw [unspent, kept] at stands
  rw [kept] at received
  exact ⟨_, moved, stands, received some⟩

theorem split_funded (first last : SplitLeg) (legs : List UrCommand) (valid : Validated intent)
    (low : 0 ≤ policy.feeBps) (high : policy.feeBps ≤ 10000)
    (planned : SplitPlan intent split policy plan first legs)
    (end_ : split.legs.getLast? = some last) :
    Always funding Empty
        (pullInput intent ++ takeInputFee intent policy ++ legs ++ splitTail intent policy)
        (started (attached intent)) ↔
      Sequenced intent (netInput intent policy) intent.currencyIn split.legs ∧
        exitForm intent last.route.currencyOut = splitOutput intent := by
  have form : Form intent intent.currencyOut := Or.inl rfl
  have fed := walk_all intent (netInput intent policy) intent.currencyIn 0 split.legs
    (some_legs _ _ _ _ _ _ planned) (split_allocated _ _ _ _ _ _ valid high planned)
  rw [sub_zero] at fed
  have tail : ∀ done, Ended intent last done →
      (Always funding Empty (splitTail intent policy) done ↔
        exitForm intent last.route.currencyOut = splitOutput intent) := by
    rintro done ⟨place, at_, stands, received⟩
    exact always_splitTail intent policy place _ done valid high at_ (exitForm_form intent _)
      stands received
  rw [List.append_assoc, List.append_assoc, always_pullInput, always_takeInputFee _ _ valid high,
    always_append, ← fed]
  constructor
  · intro runs
    have walks := legs_need intent (netInput intent policy) intent.currencyIn _ 0
      intent.currencyOut _ split.legs legs _ valid (Or.inl rfl) form
      (split_shares _ _ _ _ _ _ valid low high planned) planned.form
      (opened_stands intent policy valid _ form) runs
    have ends := legs_end intent split policy plan first last legs valid low high planned end_ walks
    obtain ⟨done, ended, empty⟩ := always_exists funding_live (always_and ends runs)
    exact ⟨walks, (tail done ended).mp empty⟩
  · rintro ⟨walks, kept⟩
    have ends := legs_end intent split policy plan first last legs valid low high planned end_ walks
    exact always_mono (fun done ended => (tail done ended).mpr kept) ends

structure Only (currency : Address) (router : Router) : Prop where
  nonneg : 0 ≤ router.held currency
  elsewhere : ∀ other, other ≠ currency → router.held other = 0

theorem empty_only (currency : Address) (empty : Empty router) :
    Only currency router :=
  ⟨(empty currency).ge, fun other _ => empty other⟩

theorem convert_only (held other : Address) (router : Router)
    (pair : (held = NATIVE ∧ other = WETH) ∨ (held = WETH ∧ other = NATIVE))
    (only : Only held router) :
    Always funding (Only other) [convert held CONTRACT_BALANCE] router := by
  have ne : other ≠ held := by
    rcases pair with ⟨rfl, rfl⟩ | ⟨rfl, rfl⟩
    · exact weth_ne_native
    · exact weth_ne_native.symm
  refine ⟨(after_convert router held other 1 pair).1, ?_⟩
  rintro next ⟨output, -, rfl⟩
  rw [always_nil, (after_convert router held other output pair).2]
  refine ⟨?_, fun currency notOther => ?_⟩
  · simp [held_credit_this, held_debit, ne, only.elsewhere other ne, only.nonneg]
  · by_cases isHeld : currency = held
    · simp [held_credit_this, held_debit, isHeld, ne.symm]
    · simp [held_credit_this, held_debit, isHeld, notOther, only.elsewhere currency isHeld]

theorem entry_only (hop : Hop) (router : Router) (same : sameAsset held hop.currencyIn)
    (only : Only held router) :
    Always funding (Only hop.currencyIn) (entry held hop) router := by
  unfold entry
  by_cases own : hop.currencyIn = held
  · rw [if_neg (by simpa using own), always_nil, own]
    exact only
  · rw [if_pos (by simpa using own)]
    exact convert_only held hop.currencyIn router (pair_of_ne _ _ same own) only

/-- A hop that takes the whole balance leaves its output, or nothing when the
output goes to the wallet. -/
theorem hop_only (hop : Hop) (recipient : Address) (command : UrCommand) (router : Router)
    (made : hopCommand hop recipient 0 = .ok command)
    (known : recipient = ADDRESS_THIS ∨ recipient = MSG_SENDER)
    (only : Only hop.currencyIn router) :
    Always funding (fun next => Only hop.currencyOut next ∧
      (recipient = MSG_SENDER → Empty next)) [command] router := by
  refine ⟨(after_hop router hop recipient 0 1 command made).1, ?_⟩
  rintro next ⟨output, positive, rfl⟩
  rw [always_nil, (after_hop router hop recipient 0 output command made).2]
  have spent : Empty (router.debit hop.currencyIn (router.held hop.currencyIn)) := by
    intro currency
    by_cases own : currency = hop.currencyIn
    · simp [held_debit, own]
    · simp [held_debit, own, only.elsewhere currency own]
  rcases known with rfl | rfl
  · refine ⟨⟨?_, fun currency notOut => ?_⟩, fun sender => absurd sender.symm sender_ne_this⟩
    · rw [held_credit_this, if_pos rfl, spent]
      omega
    · rw [held_credit_this, if_neg notOut, spent]
  · have empty : Empty ((router.debit hop.currencyIn (router.held hop.currencyIn)).credit
        MSG_SENDER hop.currencyOut output) := by
      intro currency
      rw [held_credit_sender]
      exact spent currency
    exact ⟨empty_only _ _ empty, fun _ => empty⟩

def Chained : Address → List Hop → Prop
  | _, [] => True
  | held, hop :: rest => sameAsset held hop.currencyIn ∧ Chained hop.currencyOut rest

theorem route_chained (route : Route) (served : sameAsset route.currencyIn intent.currencyIn) :
    Chained intent.currencyIn route.hops := by
  rcases route.cases_hops with ⟨hop, one⟩ | ⟨first, second, two⟩
  · have start := Route.first_of_hops route hop [] one
    rw [one]
    exact ⟨sameAsset_symm _ _ (by rwa [← start]), trivial⟩
  · have start := Route.first_of_hops route first [second] two
    rw [two]
    exact ⟨sameAsset_symm _ _ (by rwa [← start]), route.joined first second two, trivial⟩

theorem emitted_only (hops : List Hop) (commands : List UrCommand) (router : Router)
    (chained : Chained held hops) (emitted : Emitted (routePayee intent) held hops commands)
    (only : Only held router) :
    Always funding (fun next => Only (heldAfter held hops) next ∧
      (hops ≠ [] → intent.feeLeg = .input → heldAfter held hops = intent.currencyOut →
        Empty next)) commands router := by
  induction emitted generalizing router with
  | nil held => exact ⟨only, fun some => absurd rfl some⟩
  | cons held hop rest command after made later ih =>
    refine always_seq (entry_only held hop router chained.1 only) ?_
    intro ready only
    have known : routePayee intent hop rest = ADDRESS_THIS ∨
        routePayee intent hop rest = MSG_SENDER := by
      unfold routePayee
      split
      · exact Or.inr rfl
      · exact Or.inl rfl
    rw [← List.singleton_append (x := command)]
    refine always_seq (hop_only hop _ command ready made known only) ?_
    rintro next ⟨only, paid⟩
    cases rest with
    | nil =>
      cases later
      refine ⟨only, fun _ input out => paid ?_⟩
      simp only [heldAfter] at out
      simp [routePayee, direct, input, out]
    | cons second others =>
      refine always_mono (fun done facts => ⟨facts.1, fun _ => facts.2 (by simp)⟩)
        (ih next chained.2 only)

theorem opened_only (valid : Validated intent) (high : policy.feeBps ≤ 10000) :
    Only intent.currencyIn (opened intent policy) := by
  have nonneg := netInput_nonneg intent policy valid high
  refine ⟨by simpa [opened] using nonneg, fun other ne => by simp [opened, ne]⟩

theorem feeTail_empty (payOut : UrCommand) (high : policy.feeBps ≤ 10000)
    (pays : payOut = .sweep held MSG_SENDER 0 ∨ (held = WETH ∧ payOut = .unwrapWeth MSG_SENDER 0))
    (only : Only held router) :
    Always funding Empty [.payPortion held policy.feeRecipient policy.feeBps, payOut] router := by
  rw [always_payPortion Empty _ _ _ _ router only.nonneg high]
  have emptied : ∀ spent : Router, (∀ other, other ≠ held → spent.held other = 0) →
      ∀ currency amount, Empty ((spent.debit held (spent.held held)).credit MSG_SENDER currency
        amount) := by
    intro spent elsewhere currency amount other
    rw [held_credit_sender]
    by_cases own : other = held
    · simp [held_debit, own]
    · simp [held_debit, own, elsewhere other own]
  have elsewhere : ∀ other, other ≠ held →
      (router.debit held (floorBps (router.held held) policy.feeBps)).held other = 0 :=
    fun other ne => by simp [held_debit, ne, only.elsewhere other ne]
  rcases pays with rfl | ⟨rfl, rfl⟩
  · refine ⟨by change covered _ _; simp [covered, takes], ?_⟩
    rintro next ⟨output, -, rfl⟩
    exact emptied _ elsewhere held _
  · refine ⟨by change covered _ _; simp [covered, takes], ?_⟩
    rintro next ⟨output, -, rfl⟩
    exact emptied _ elsewhere NATIVE _

theorem outputTail_empty (high : policy.feeBps ≤ 10000) (only : Only held router) :
    Always funding Empty (outputTail intent policy held) router := by
  unfold outputTail
  have pays : ∀ kept, (if intent.currencyOut = NATIVE ∧ kept = WETH then
      UrCommand.unwrapWeth MSG_SENDER 0 else .sweep kept MSG_SENDER 0) =
        .sweep kept MSG_SENDER 0 ∨ (kept = WETH ∧
      (if intent.currencyOut = NATIVE ∧ kept = WETH then
        UrCommand.unwrapWeth MSG_SENDER 0 else .sweep kept MSG_SENDER 0) =
        .unwrapWeth MSG_SENDER 0) := by
    intro kept
    split
    · rename_i both
      exact Or.inr ⟨both.2, rfl⟩
    · exact Or.inl rfl
  by_cases wraps : intent.currencyOut = WETH ∧ held = NATIVE
  · obtain ⟨weth, rfl⟩ := wraps
    have form : paidForm intent NATIVE = WETH := by simp [paidForm, weth]
    have wrap := convert_only NATIVE WETH router (Or.inl ⟨rfl, rfl⟩) only
    rw [convert, if_pos rfl] at wrap
    rw [if_pos ⟨weth, rfl⟩, form]
    exact always_seq wrap fun next only =>
      feeTail_empty policy WETH next _ high (pays WETH) only
  · have form : paidForm intent held = held := by simp [paidForm, wraps]
    rw [if_neg wraps, form, List.nil_append]
    exact feeTail_empty policy held router _ high (pays held) only

theorem route_funded (route : Route) (policy : TxPolicy) (commands : List UrCommand)
    (feeCurrency : Address) (valid : Validated intent) (high : policy.feeBps ≤ 10000)
    (served : serves intent route) (form : RouteCommands intent route policy commands feeCurrency) :
    Always funding Empty commands (started (attached intent)) := by
  have only := opened_only intent policy valid high
  have chained := route_chained intent route served.1
  have hops := heldAfter_route intent.currencyIn route
  cases form with
  | paidDirectly added emitted input out =>
    rw [List.append_assoc, always_pullInput, always_takeInputFee _ _ valid high]
    refine always_mono ?_ (emitted_only intent _ _ _ _ chained emitted only)
    intro done facts
    exact facts.2 route.ne_nil input (hops.trans out)
  | paidAfterFee added emitted output =>
    have noFee : takeInputFee intent policy = [] := by simp [takeInputFee, output]
    rw [List.append_assoc, always_pullInput, ← List.nil_append (added ++ _), ← noFee,
      always_takeInputFee _ _ valid high]
    refine always_seq (emitted_only intent _ _ _ _ chained emitted only) ?_
    rintro done ⟨only, -⟩
    rw [hops] at only
    exact outputTail_empty intent policy _ done high only

/-- The legs of a split come in an order in which no leg takes what a later one is
to spend, and a split that pays ETH ends with a leg that gives ETH. -/
def WellOrdered (intent : SwapIntent) (policy : TxPolicy) (order : Order) : Prop :=
  1 < (orderLegs order).length →
    Sequenced intent (netInput intent policy) intent.currencyIn (orderLegs order) ∧
      (intent.currencyOut = NATIVE →
        ∀ last ∈ (orderLegs order).getLast?, last.route.currencyOut = NATIVE)

instance (intent : SwapIntent) (policy : TxPolicy) (order : Order) :
    Decidable (WellOrdered intent policy order) := by
  unfold WellOrdered; infer_instance

theorem exitForm_splitOutput (given : Address) :
    exitForm intent given = splitOutput intent ↔ (intent.currencyOut = NATIVE → given = NATIVE) := by
  unfold exitForm splitOutput
  by_cases native : intent.currencyOut = NATIVE
  · by_cases eth : given = NATIVE
    · simp [native, eth]
    · simp [native, eth, weth_ne_native.symm]
  · simp [native]

/-- Every command of a UniversalRouter plan finds what it takes and the router ends
empty, whatever the pools return, exactly when the order is well ordered. -/
theorem plan_funded (abi : Codec) (policy : TxPolicy) (raw intent : SwapIntent) (order : Order)
    (plan : Plan) (body : SwapBody) (deadline permitNonce : Int)
    (validated : validateSwap policy raw = .ok intent) (low : 0 ≤ policy.feeBps)
    (high : policy.feeBps ≤ 10000)
    (planned : order.plan abi intent policy deadline permitNonce = .ok plan)
    (target : plan.target = UR) (shape : plan.body = .swap body) :
    Always funding Empty body.commands (started plan.value) ↔ WellOrdered intent policy order := by
  have valid := validateSwap_ok policy raw intent validated
  have single : ∀ route, TxPlan.plan abi intent route policy deadline permitNonce = .ok plan →
      Always funding Empty body.commands (started plan.value) := by
    intro route alone
    obtain ⟨commands, fee, made⟩ :=
      plan_routePlan abi intent route policy deadline permitNonce plan target alone
    have same := made.body
    rw [shape, Body.swap.injEq] at same
    rw [same, made.value]
    exact route_funded intent route policy commands fee valid high made.serves made.form
  cases order with
  | onRoute route => simp [WellOrdered, orderLegs, single route planned]
  | onSplit split =>
    rcases planSplit_cases abi intent split policy deadline permitNonce plan planned
      with ⟨leg, one, alone⟩ | ⟨first, legs, several⟩
    · simp [WellOrdered, orderLegs, one, single leg.route alone]
    · have more : 1 < split.legs.length := several.several
      have same := several.body
      rw [shape, Body.swap.injEq] at same
      obtain ⟨last, end_⟩ : ∃ last, split.legs.getLast? = some last :=
        ⟨_, List.getLast?_eq_some_getLast (some_legs _ _ _ _ _ _ several)⟩
      rw [same, several.value, split_funded intent split policy plan first last legs valid low
        high several end_, exitForm_splitOutput]
      simp [WellOrdered, orderLegs, more, end_]

/-! Two legs over WETH pools: bought with ETH they are funded, sold for ETH they are
not, since the last leg unwraps what the payout looks for as WETH. -/

def sampleLegs (route : Venue → Address → Route) : Split :=
  ⟨[⟨route .v3 UR_V3_FACTORY, 600, 70⟩, ⟨route .v2 UR_V2_FACTORY, 400, 30⟩], by simp, by simp⟩

theorem plan_funded_sample :
    ∃ plan body, planSplit layout (sampleTrade .buy) (sampleLegs sampleBuy) samplePolicy 5000 0 =
        .ok plan ∧ plan.body = .swap body ∧
      Always funding Empty body.commands (started plan.value) := by
  have targets : (planSplit layout (sampleTrade .buy) (sampleLegs sampleBuy) samplePolicy 5000 0).map
      (fun plan => plan.target) = .ok UR := by decide +kernel
  cases planned : planSplit layout (sampleTrade .buy) (sampleLegs sampleBuy) samplePolicy 5000 0 with
  | error failure => simp [planned, Except.map] at targets
  | ok plan =>
    simp only [planned, Except.map, Except.ok.injEq] at targets
    rcases planSplit_cases layout (sampleTrade .buy) _ samplePolicy 5000 0 plan planned
      with ⟨leg, one, -⟩ | ⟨first, legs, several⟩
    · cases one
    · exact ⟨plan, _, rfl, several.body, (plan_funded layout samplePolicy (sampleTrade .buy)
        (sampleTrade .buy) (.onSplit (sampleLegs sampleBuy)) plan _ 5000 0 (by decide) (by decide)
        (by decide) planned targets several.body).mpr (by decide)⟩

theorem sampleSell_stuck :
    validateSwap samplePolicy (sampleTrade .sell) = .ok (sampleTrade .sell) ∧
    ∃ plan body, planSplit layout (sampleTrade .sell) (sampleLegs sampleSell) samplePolicy 5000 0 =
        .ok plan ∧ plan.target = UR ∧ plan.body = .swap body ∧
      ¬Always funding Empty body.commands (started plan.value) := by
  refine ⟨by decide, ?_⟩
  have targets : (planSplit layout (sampleTrade .sell) (sampleLegs sampleSell) samplePolicy 5000 0).map
      (fun plan => plan.target) = .ok UR := by decide +kernel
  cases planned : planSplit layout (sampleTrade .sell) (sampleLegs sampleSell) samplePolicy 5000 0 with
  | error failure => simp [planned, Except.map] at targets
  | ok plan =>
    simp only [planned, Except.map, Except.ok.injEq] at targets
    rcases planSplit_cases layout (sampleTrade .sell) _ samplePolicy 5000 0 plan planned
      with ⟨leg, one, -⟩ | ⟨first, legs, several⟩
    · cases one
    · refine ⟨plan, _, rfl, targets, several.body, ?_⟩
      have valid := validateSwap_ok samplePolicy (sampleTrade .sell) (sampleTrade .sell)
        (by decide)
      rw [several.value, split_funded (sampleTrade .sell) _ samplePolicy plan first _ legs valid
        (by decide) (by decide) several rfl]
      rintro ⟨-, kept⟩
      revert kept
      decide

end RhPools.PlanFunding
