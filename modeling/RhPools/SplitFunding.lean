import RhPools.RouterBalances

/-! Whether the router holds what each command of a plan takes. The router's
balances are followed through a plan by three facts: where the unspent input
stands, how much of it there is, and in which form the output is kept. A leg
moves these, and may take away what a later leg was to spend. -/

namespace RhPools.SplitFunding
open AbiCodec TxChain TxRoutes UrCommands TxPlan PlannedSwaps CommandRuns RouterBalances
open ProportionalShares

theorem weth_ne_native : WETH ≠ NATIVE := by decide

theorem sameAsset_symm (a b : Address) (same : sameAsset a b) : sameAsset b a := by
  rcases same with rfl | ⟨rfl, rfl⟩ | ⟨rfl, rfl⟩
  · exact Or.inl rfl
  · exact Or.inr (Or.inr ⟨rfl, rfl⟩)
  · exact Or.inr (Or.inl ⟨rfl, rfl⟩)

theorem pair_of_ne (a b : Address) (same : sameAsset a b) (ne : b ≠ a) :
    (a = NATIVE ∧ b = WETH) ∨ (a = WETH ∧ b = NATIVE) := by
  rcases same with rfl | pair | pair
  · exact absurd rfl ne
  · exact Or.inl pair
  · exact Or.inr pair

variable (intent : SwapIntent)

theorem currencies_apart (valid : Validated intent) :
    ¬sameAsset intent.currencyIn intent.currencyOut := by
  unfold SwapIntent.currencyIn SwapIntent.currencyOut
  split
  · exact fun same => valid.apart (sameAsset_symm _ _ same)
  · exact valid.apart

structure Stands (place : Address) (unspent : Int) (form : Address) (router : Router) : Prop where
  unspent : router.held place = unspent
  output : 0 ≤ router.held form
  elsewhere : ∀ currency, currency ≠ place → currency ≠ form → router.held currency = 0

def Place (intent : SwapIntent) (place : Address) : Prop :=
  place = intent.currencyIn ∨ (intent.currencyIn = WETH ∧ place = NATIVE)

def Form (intent : SwapIntent) (form : Address) : Prop :=
  form = intent.currencyOut ∨ (intent.currencyOut = NATIVE ∧ form = WETH)

variable (route : Route) (net : Int) (place : Address)

theorem Place.same (at_ : Place intent place) :
    sameAsset place intent.currencyIn := by
  rcases at_ with rfl | ⟨weth, rfl⟩
  · exact Or.inl rfl
  · exact Or.inr (Or.inl ⟨rfl, weth⟩)

variable (unspent allocated : Int) (form : Address)

theorem Form.same (kept : Form intent form) :
    sameAsset form intent.currencyOut := by
  rcases kept with rfl | ⟨native, rfl⟩
  · exact Or.inl rfl
  · exact Or.inr (Or.inr ⟨rfl, native⟩)

theorem sameAsset_trans (a b c : Address) (first : sameAsset a b) (second : sameAsset b c) :
    sameAsset a c := by
  unfold sameAsset at *
  grind

theorem place_ne (place other : Address) (valid : Validated intent) (at_ : Place intent place)
    (out : sameAsset other intent.currencyOut) : place ≠ other := by
  rintro rfl
  exact currencies_apart intent valid
    (sameAsset_trans _ _ _ (sameAsset_symm _ _ (Place.same _ _ at_)) out)

def entered (intent : SwapIntent) (place start : Address) : Address :=
  if start ≠ intent.currencyIn ∧ intent.currencyIn = WETH then NATIVE else place

def starved (intent : SwapIntent) (place start : Address) : Prop :=
  start = intent.currencyIn ∧ place ≠ start

instance (intent : SwapIntent) (place start : Address) :
    Decidable (starved intent place start) := by
  unfold starved; infer_instance

def available (intent : SwapIntent) (place start : Address) (unspent : Int) : Int :=
  if starved intent place start then 0 else unspent

theorem entered_place (place start : Address) (at_ : Place intent place) :
    Place intent (entered intent place start) := by
  unfold entered
  split
  · rename_i moved
    exact Or.inr ⟨moved.2, rfl⟩
  · exact at_

/-- The router with the output of the hop on its way: `rest` is what stands. -/
def Carries (place : Address) (unspent : Int) (form currency : Address) (router : Router) :
    Prop :=
  ∃ rest output, 0 < output ∧ Stands place unspent form rest ∧
    router = rest.credit ADDRESS_THIS currency output

/-- The commands need `enough` for the share; then `rest` stays behind and the
output of the swap comes on top. -/
def Spends (commands : List UrCommand) (router rest : Router) (share enough : Int)
    (currency : Address) : Prop :=
  ∀ post, Always funding post commands router ↔
    share ≤ enough ∧ ∀ output, 0 < output → post (rest.credit ADDRESS_THIS currency output)

variable (router : Router)

theorem share_spends (hop : Hop) (share : Int) (command : UrCommand)
    (amount : share ≠ CONTRACT_BALANCE) (made : hopCommand hop ADDRESS_THIS 0 = .ok command) :
    Spends [withAmountIn share command] router (router.debit hop.currencyIn share) share
      (router.held hop.currencyIn) hop.currencyOut := by
  intro post
  have effect := fun output =>
    (after_share router hop ADDRESS_THIS 0 share output command amount made).2
  rw [always_cons]
  refine and_congr (after_share router hop _ 0 share 1 command amount made).1 ?_
  constructor
  · intro all output positive
    rw [← effect output]
    exact all _ ⟨output, positive, rfl⟩
  · rintro all next ⟨output, positive, rfl⟩
    rw [always_nil, effect output]
    exact all output positive

theorem always_fixed (post : Router → Prop) (command : UrCommand) (rest : List UrCommand)
    (router next : Router) (fixed : ∀ output, after router output command = next) :
    Always funding post (command :: rest) router ↔
      covered command router ∧ Always funding post rest next := by
  rw [always_cons]
  refine and_congr Iff.rfl ⟨fun all => all next ⟨1, Int.one_pos, (fixed 1).symm⟩, ?_⟩
  rintro held _ ⟨output, -, rfl⟩
  rw [fixed output]
  exact held

theorem enter_held (unspent share : Int) (form : Address) (router : Router) (hop : Hop)
    (command : UrCommand) (valid : Validated intent) (at_ : Place intent place)
    (kept : Form intent form) (same : hop.currencyIn = intent.currencyIn)
    (made : hopCommand hop ADDRESS_THIS 0 = .ok command) (amount : share ≠ CONTRACT_BALANCE)
    (nonneg : 0 ≤ share) (stands : Stands place unspent form router) :
    ∃ rest, Spends [withAmountIn share command] router rest share
        (available intent place hop.currencyIn unspent) hop.currencyOut ∧
      (share ≤ available intent place hop.currencyIn unspent →
        Stands place (unspent - share) form rest) := by
  have formNe := place_ne intent place form valid at_ (Form.same _ _ kept)
  have inNe : intent.currencyIn ≠ form :=
    place_ne intent _ form valid (Or.inl rfl) (Form.same _ _ kept)
  obtain ⟨left, output, elsewhere⟩ := stands
  have spends := share_spends router hop share command amount made
  refine ⟨router.debit hop.currencyIn share, ?_, ?_⟩
  · by_cases here : place = hop.currencyIn
    · have fed : ¬starved intent place hop.currencyIn := fun s => s.2 here
      rw [← here, left, here] at spends
      rwa [available, if_neg fed]
    · have empty : router.held hop.currencyIn = 0 :=
        elsewhere _ (fun moved => here moved.symm) (by rw [same]; exact inNe)
      rw [empty] at spends
      rwa [available, if_pos ⟨same, here⟩]
  · intro enough
    by_cases here : place = hop.currencyIn
    · refine ⟨by simp [held_debit, ← here, left], ?_, ?_⟩
      · simp [held_debit, ← here, formNe.symm, output]
      · intro currency notPlace notForm
        simp [held_debit, ← here, notPlace, elsewhere currency notPlace notForm]
    · rw [available, if_pos ⟨same, here⟩] at enough
      obtain rfl : share = 0 := by omega
      refine ⟨by simp [held_debit, here, left], ?_, ?_⟩
      · simp [held_debit, same, inNe.symm, output]
      · intro currency notPlace notForm
        by_cases own : currency = hop.currencyIn
        · subst own
          simp [held_debit, elsewhere _ notPlace notForm]
        · simp [held_debit, own, elsewhere currency notPlace notForm]

theorem enter_wrapped (unspent share : Int) (form : Address) (router : Router) (hop : Hop)
    (command : UrCommand) (formNative : form ≠ NATIVE) (formWeth : form ≠ WETH)
    (weth : hop.currencyIn = WETH) (made : hopCommand hop ADDRESS_THIS 0 = .ok command)
    (amount : share ≠ CONTRACT_BALANCE) (stands : Stands NATIVE unspent form router) :
    ∃ rest, Spends [.wrapEth ADDRESS_THIS share, withAmountIn share command] router rest share
        unspent hop.currencyOut ∧
      Stands NATIVE (unspent - share) form rest := by
  have apart := weth_ne_native
  obtain ⟨left, output, elsewhere⟩ := stands
  have empty : router.held WETH = 0 := elsewhere WETH apart formWeth.symm
  let wrapped := (router.debit NATIVE share).credit ADDRESS_THIS WETH share
  have fixed : ∀ output, after router output (.wrapEth ADDRESS_THIS share) = wrapped := by
    intro output
    simp [wrapped, after, takes, gives, stated_share _ _ amount]
  have covers : covered (.wrapEth ADDRESS_THIS share) router ↔ share ≤ unspent := by
    simp [covered, takes, stated_share _ _ amount, left]
  have held : wrapped.held WETH = share := by
    simp [wrapped, held_credit_this, held_debit, apart, empty]
  refine ⟨wrapped.debit hop.currencyIn share, ?_, ?_, ?_, ?_⟩
  · intro post
    rw [always_fixed post _ _ router wrapped fixed, covers,
      share_spends wrapped hop share command amount made post, weth, held]
    simp
  · simp [wrapped, weth, held_credit_this, held_debit, apart.symm, left]
  · simp [wrapped, weth, held_credit_this, held_debit, formWeth, formNative, output]
  · intro currency notNative notForm
    by_cases isWeth : currency = WETH
    · simp [wrapped, isWeth, weth, held_credit_this, held_debit, apart, empty]
    · simp [wrapped, isWeth, weth, held_credit_this, held_debit, notNative,
        elsewhere currency notNative notForm]

theorem enter_unwrapped (unspent share : Int) (form : Address) (router : Router) (hop : Hop)
    (command : UrCommand) (formNative : form ≠ NATIVE) (formWeth : form ≠ WETH)
    (eth : place = WETH ∨ place = NATIVE) (native : hop.currencyIn = NATIVE)
    (made : hopCommand hop ADDRESS_THIS 0 = .ok command) (amount : share ≠ CONTRACT_BALANCE)
    (stands : Stands place unspent form router) :
    ∃ rest, Spends [.unwrapWeth ADDRESS_THIS 0, withAmountIn share command] router rest share
        unspent hop.currencyOut ∧
      Stands NATIVE (unspent - share) form rest := by
  have apart := weth_ne_native
  obtain ⟨left, output, elsewhere⟩ := stands
  have total : router.held NATIVE + router.held WETH = unspent := by
    rcases eth with rfl | rfl
    · rw [elsewhere NATIVE apart.symm formNative.symm, left, zero_add]
    · rw [elsewhere WETH apart formWeth.symm, left, add_zero]
  have others : ∀ currency, currency ≠ NATIVE → currency ≠ WETH → currency ≠ form →
      router.held currency = 0 := by
    intro currency notNative notWeth notForm
    refine elsewhere currency ?_ notForm
    rintro rfl
    rcases eth with rfl | rfl
    · exact notWeth rfl
    · exact notNative rfl
  let unwrapped :=
    (router.debit WETH (router.held WETH)).credit ADDRESS_THIS NATIVE (router.held WETH)
  have fixed : ∀ output, after router output (.unwrapWeth ADDRESS_THIS 0) = unwrapped := by
    intro output
    simp [unwrapped, after, takes, gives]
  have covers : covered (.unwrapWeth ADDRESS_THIS 0) router := by simp [covered, takes]
  have held : unwrapped.held NATIVE = unspent := by
    simp [unwrapped, held_credit_this, held_debit, apart.symm, total]
  refine ⟨unwrapped.debit hop.currencyIn share, ?_, ?_, ?_, ?_⟩
  · intro post
    rw [always_fixed post _ _ router unwrapped fixed,
      share_spends unwrapped hop share command amount made post, native, held]
    simp [covers]
  · simp [native, held_debit, held]
  · simp [unwrapped, native, held_credit_this, held_debit, formNative, formWeth, output]
  · intro currency notNative notForm
    by_cases isWeth : currency = WETH
    · simp [unwrapped, isWeth, native, held_credit_this, held_debit, apart]
    · simp [unwrapped, isWeth, native, held_credit_this, held_debit, notNative,
        others currency notNative isWeth notForm]

theorem first_swap (unspent share : Int) (form : Address) (router : Router) (hop : Hop)
    (command : UrCommand) (valid : Validated intent) (at_ : Place intent place)
    (kept : Form intent form) (served : sameAsset hop.currencyIn intent.currencyIn)
    (made : hopCommand hop ADDRESS_THIS 0 = .ok command) (amount : share ≠ CONTRACT_BALANCE)
    (nonneg : 0 ≤ share) (stands : Stands place unspent form router) :
    ∃ rest, Spends (legEntry intent.currencyIn hop share ++ [withAmountIn share command]) router
        rest share (available intent place hop.currencyIn unspent) hop.currencyOut ∧
      (share ≤ available intent place hop.currencyIn unspent →
        Stands (entered intent place hop.currencyIn) (unspent - share) form rest) := by
  have apart := weth_ne_native
  have outside : ∀ other, sameAsset other intent.currencyIn → form ≠ other := by
    rintro other same rfl
    exact currencies_apart intent valid
      (sameAsset_trans _ _ _ (sameAsset_symm _ _ same) (Form.same _ _ kept))
  by_cases same : hop.currencyIn = intent.currencyIn
  · simp only [legEntry, entered, same, ne_eq, not_true_eq_false, if_false, false_and,
      List.nil_append]
    rw [← same]
    exact enter_held intent place unspent share form router hop command valid at_ kept same made
      amount nonneg stands
  · have fed : ¬starved intent place hop.currencyIn := fun s => same s.1
    simp only [legEntry, ne_eq, same, not_false_eq_true, if_true, available, if_neg fed,
      List.cons_append, List.nil_append]
    rcases pair_of_ne _ _ (sameAsset_symm _ _ served) same with ⟨native, weth⟩ | ⟨weth, native⟩
    · have stays : place = NATIVE := by
        rcases at_ with here | ⟨wrapped, -⟩
        · rw [here, native]
        · rw [wrapped] at native
          exact absurd native apart
      subst stays
      obtain ⟨rest, spends, stands⟩ := enter_wrapped unspent share form router hop command
        (outside _ (Or.inl native.symm)) (outside _ (Or.inr (Or.inr ⟨rfl, native⟩))) weth made
        amount stands
      refine ⟨rest, by rwa [convert, if_pos native], fun _ => ?_⟩
      rwa [entered, if_neg (by simp [native, apart.symm])]
    · obtain ⟨rest, spends, stands⟩ := enter_unwrapped place unspent share form router hop command
        (outside _ (Or.inr (Or.inl ⟨rfl, weth⟩))) (outside _ (Or.inl weth.symm))
        (at_.imp (fun here => here.trans weth) fun moved => moved.2) native made amount stands
      refine ⟨rest, by rwa [convert, if_neg (by rw [weth]; exact apart)], fun _ => ?_⟩
      rwa [entered, if_pos ⟨same, weth⟩]

/-- The hops are done: `currency` holds the output of the last one. -/
structure Paid (place : Address) (unspent : Int) (form currency : Address) (router : Router) :
    Prop where
  unspent : router.held place = unspent
  output : 0 ≤ router.held form
  received : 0 < router.held currency
  elsewhere : ∀ other, other ≠ place → other ≠ form → other ≠ currency → router.held other = 0

theorem carries_paid (unspent : Int) (form currency : Address) (router : Router)
    (apart : place ≠ currency)
    (nonneg : ∀ rest, Stands place unspent form rest → 0 ≤ rest.held currency)
    (carries : Carries place unspent form currency router) :
    Paid place unspent form currency router := by
  obtain ⟨rest, output, positive, stands, rfl⟩ := carries
  have more := nonneg rest stands
  obtain ⟨left, kept, elsewhere⟩ := stands
  refine ⟨?_, ?_, ?_, ?_⟩
  · simp [held_credit_this, apart, left]
  · by_cases same : form = currency
    · subst same
      simp [held_credit_this]
      omega
    · simp [held_credit_this, same, kept]
  · simp [held_credit_this]
    omega
  · intro other notPlace notForm notCurrency
    simp [held_credit_this, notCurrency, elsewhere other notPlace notForm]

theorem Stands.nonneg (unspent : Int) (form : Address) (router : Router)
    (stands : Stands place unspent form router) (currency : Address) (ne : currency ≠ place) :
    0 ≤ router.held currency := by
  by_cases same : currency = form
  · rw [same]
    exact stands.output
  · exact (stands.elsewhere currency ne same).ge

/-- A second hop takes its whole input, and with it the unspent input if that
stands in one of the two currencies between the hops. -/
def consumes (place : Address) (hops : List Hop) : Prop :=
  match hops with
  | [first, second] => place = first.currencyOut ∨ place = second.currencyIn
  | _ => False

instance (place : Address) (hops : List Hop) : Decidable (consumes place hops) := by
  unfold consumes; split <;> infer_instance

/-- Balances when the second hop starts: everything between the hops stands in its
first currency. -/
structure Gathered (place : Address) (unspent : Int) (form : Address) (first second : Hop)
    (router : Router) : Prop where
  unspent : place ≠ first.currencyOut → place ≠ second.currencyIn → router.held place = unspent
  output : form ≠ second.currencyIn → 0 ≤ router.held form
  converted : first.currencyOut ≠ second.currencyIn → router.held first.currencyOut = 0
  elsewhere : ∀ currency, currency ≠ place → currency ≠ form → currency ≠ first.currencyOut →
    currency ≠ second.currencyIn → router.held currency = 0

theorem enter_second (unspent : Int) (form : Address) (first second : Hop) (router : Router)
    (joined : sameAsset first.currencyOut second.currencyIn)
    (carries : Carries place unspent form first.currencyOut router) :
    Always funding (Gathered place unspent form first second)
      (entry first.currencyOut second) router := by
  obtain ⟨rest, output, positive, ⟨left, kept, elsewhere⟩, rfl⟩ := carries
  unfold entry
  by_cases same : second.currencyIn = first.currencyOut
  · rw [if_neg (by simpa using same)]
    refine ⟨?_, ?_, fun ne => absurd same.symm ne, ?_⟩
    · intro notOut _
      simp [held_credit_this, notOut, left]
    · intro notIn
      rw [same] at notIn
      simp [held_credit_this, notIn, kept]
    · intro currency notPlace notForm notOut _
      simp [held_credit_this, notOut, elsewhere currency notPlace notForm]
  · rw [if_pos (by simpa using same)]
    have convert := fun output => after_convert
      (rest.credit ADDRESS_THIS first.currencyOut output) first.currencyOut second.currencyIn 1
      (pair_of_ne _ _ joined same)
    refine ⟨(convert output).1, ?_⟩
    rintro next ⟨given, -, rfl⟩
    rw [always_nil, (after_convert _ first.currencyOut second.currencyIn given
      (pair_of_ne _ _ joined same)).2]
    refine ⟨?_, ?_, ?_, ?_⟩
    · intro notOut notIn
      simp [held_credit_this, held_debit, notOut, notIn, left]
    · intro notIn
      by_cases isOut : form = first.currencyOut
      · simp [held_credit_this, held_debit, isOut, Ne.symm same]
      · simp [held_credit_this, held_debit, isOut, notIn, kept]
    · intro _
      simp [held_credit_this, held_debit, Ne.symm same]
    · intro currency notPlace notForm notOut notIn
      simp [held_credit_this, held_debit, notOut, notIn, elsewhere currency notPlace notForm]

theorem second_swap (unspent : Int) (form : Address) (first second : Hop) (router : Router)
    (command : UrCommand) (joined : sameAsset first.currencyOut second.currencyIn)
    (made : hopCommand second ADDRESS_THIS 0 = .ok command) (apart : place ≠ second.currencyOut)
    (carries : Carries place unspent form first.currencyOut router) :
    Always funding
      (Paid place (if consumes place [first, second] then 0 else unspent) form
        second.currencyOut)
      (entry first.currencyOut second ++ [command]) router := by
  refine always_seq (enter_second place unspent form first second router joined carries) ?_
  intro gathered ⟨left, kept, converted, elsewhere⟩
  refine ⟨(after_hop gathered second _ 0 1 command made).1, ?_⟩
  rintro next ⟨output, positive, rfl⟩
  rw [always_nil, (after_hop gathered second _ 0 output command made).2]
  -- What the second hop takes is gone, so only its output can stand there.
  have spent : ∀ currency, (gathered.debit second.currencyIn
      (gathered.held second.currencyIn)).held currency =
        if currency = second.currencyIn then 0 else gathered.held currency := by
    intro currency
    by_cases taken : currency = second.currencyIn <;> simp [held_debit, taken]
  have outside : ∀ currency, currency ≠ place → currency ≠ form →
      (if currency = second.currencyIn then 0 else gathered.held currency) = 0 := by
    intro currency notPlace notForm
    by_cases taken : currency = second.currencyIn
    · simp [taken]
    · rw [if_neg taken]
      by_cases isOut : currency = first.currencyOut
      · subst isOut
        exact converted taken
      · exact elsewhere currency notPlace notForm isOut taken
  have formNonneg : 0 ≤ if form = second.currencyIn then 0 else gathered.held form := by
    split
    · exact le_rfl
    · rename_i notIn
      exact kept notIn
  refine ⟨?_, ?_, ?_, ?_⟩
  · rw [held_credit_this, if_neg apart, spent]
    by_cases isIn : place = second.currencyIn
    · simp [consumes, isIn]
    · by_cases isOut : place = first.currencyOut
      · have empty : gathered.held first.currencyOut = 0 := converted (by rwa [← isOut])
        simp only [consumes, isOut, true_or, if_true, empty, ite_self]
      · simp only [consumes, isIn, isOut, or_self, if_false]
        exact left isOut isIn
  · rw [held_credit_this, spent, spent]
    by_cases same : form = second.currencyOut
    · rw [if_pos same, ← same]
      omega
    · rw [if_neg same]
      exact formNonneg
  · rw [held_credit_this, if_pos rfl, spent]
    by_cases same : second.currencyOut = form
    · rw [same]
      omega
    · rw [outside _ apart.symm same]
      omega
  · intro other notPlace notForm notOut
    rw [held_credit_this, if_neg notOut, spent]
    exact outside other notPlace notForm

def exitForm (intent : SwapIntent) (given : Address) : Address :=
  if intent.currencyOut = NATIVE then (if given = NATIVE then WETH else NATIVE)
  else intent.currencyOut

theorem exitForm_form (given : Address) : Form intent (exitForm intent given) := by
  unfold exitForm Form
  by_cases native : intent.currencyOut = NATIVE
  · by_cases given : given = NATIVE <;> simp [native, given]
  · simp [native]

structure Rests (place : Address) (unspent : Int) (form : Address) (router : Router) : Prop where
  stands : Stands place unspent form router
  received : 0 < router.held form

theorem convert_rests (unspent : Int) (form held other : Address) (router : Router)
    (pair : (held = NATIVE ∧ other = WETH) ∨ (held = WETH ∧ other = NATIVE))
    (notHeld : place ≠ held) (notOther : place ≠ other) (either : form = held ∨ form = other)
    (paid : Paid place unspent form held router) :
    Always funding (Rests place unspent other) [convert held CONTRACT_BALANCE] router := by
  have ne : held ≠ other := by
    rcases pair with ⟨rfl, rfl⟩ | ⟨rfl, rfl⟩
    · exact weth_ne_native.symm
    · exact weth_ne_native
  obtain ⟨left, kept, received, elsewhere⟩ := paid
  refine ⟨(after_convert router held other 1 pair).1, ?_⟩
  rintro next ⟨output, -, rfl⟩
  rw [always_nil, (after_convert router held other output pair).2]
  have otherNonneg : 0 ≤ router.held other := by
    rcases either with rfl | rfl
    · exact (elsewhere other notOther.symm ne.symm ne.symm).ge
    · exact kept
  have total : ((router.debit held (router.held held)).credit ADDRESS_THIS other
      (router.held held)).held other = router.held other + router.held held := by
    simp [held_credit_this, held_debit, ne.symm]
  refine ⟨⟨?_, by omega, ?_⟩, by omega⟩
  · simp [held_credit_this, held_debit, notHeld, notOther, left]
  · intro currency notPlace notForm
    by_cases isHeld : currency = held
    · simp [held_credit_this, held_debit, isHeld, ne]
    · have notKept : currency ≠ form := by
        rcases either with rfl | rfl
        · exact isHeld
        · exact notForm
      simp [held_credit_this, held_debit, isHeld, notForm,
        elsewhere currency notPlace notKept isHeld]

theorem exit_rests (unspent : Int) (form given : Address) (router : Router)
    (valid : Validated intent) (at_ : Place intent place) (kept : Form intent form)
    (served : sameAsset given intent.currencyOut) (paid : Paid place unspent form given router) :
    Always funding (Rests place unspent (exitForm intent given))
      (splitExit intent.currencyOut given) router := by
  have notGiven := place_ne intent place given valid at_ served
  have notOut := place_ne intent place _ valid at_ (Or.inl rfl)
  unfold splitExit exitForm
  by_cases native : intent.currencyOut = NATIVE
  · have notWeth : place ≠ WETH :=
      place_ne intent place WETH valid at_ (Or.inr (Or.inr ⟨rfl, native⟩))
    rw [native] at notOut served
    have forms : form = NATIVE ∨ form = WETH := by
      rcases kept with same | ⟨-, weth⟩
      · exact Or.inl (same.trans native)
      · exact Or.inr weth
    by_cases isNative : given = NATIVE
    · subst isNative
      simp only [native, and_self, if_true]
      have wrap := convert_rests place unspent form NATIVE WETH router (Or.inl ⟨rfl, rfl⟩)
        notOut notWeth forms paid
      rwa [convert, if_pos rfl] at wrap
    · -- The leg gives WETH: it is unwrapped although WETH is what the tail pays out.
      obtain ⟨weth, -⟩ : given = WETH ∧ NATIVE = NATIVE := by
        rcases served with same | ⟨same, -⟩ | pair
        · exact absurd same isNative
        · exact absurd same isNative
        · exact ⟨pair.1, rfl⟩
      subst weth
      simp only [native, isNative, false_and, if_false, ne_eq, not_false_eq_true, if_true]
      exact convert_rests place unspent form WETH NATIVE router (Or.inr ⟨rfl, rfl⟩) notWeth notOut
        forms.symm paid
  · have isOut : form = intent.currencyOut := by
      rcases kept with same | ⟨wrong, -⟩
      · exact same
      · exact absurd wrong native
    simp only [native, and_false, if_false]
    by_cases same : given = intent.currencyOut
    · subst same
      simp only [ne_eq, not_true_eq_false, if_false, always_nil]
      obtain ⟨left, -, received, elsewhere⟩ := paid
      rw [isOut] at elsewhere
      exact ⟨⟨left, received.le, fun c notPlace notForm => elsewhere c notPlace notForm notForm⟩,
        received⟩
    · simp only [ne_eq, same, not_false_eq_true, if_true]
      exact convert_rests place unspent form given intent.currencyOut router
        (pair_of_ne _ _ served (Ne.symm same)) notGiven notOut (Or.inr isOut) paid

def remaining (place : Address) (hops : List Hop) (unspent share : Int) : Int :=
  if consumes place hops then 0 else unspent - share

theorem leg_split (share : Int) (commands : List UrCommand)
    (form : LegCommands intent route share commands) :
    ∃ first rest command after, route.hops = first :: rest ∧
      hopCommand first ADDRESS_THIS 0 = .ok command ∧
      Emitted inRouter first.currencyOut rest after ∧
      commands = (legEntry intent.currencyIn first share ++ [withAmountIn share command]) ++
        (after ++ splitExit intent.currencyOut route.currencyOut) := by
  cases form with
  | intro first rest command after hops made later =>
    exact ⟨first, rest, command, after, hops, made, later, by simp⟩

theorem later_hops (unspent : Int) (form : Address) (router : Router) (first : Hop)
    (rest : List Hop) (after : List UrCommand) (valid : Validated intent) (at_ : Place intent place)
    (served : sameAsset route.currencyOut intent.currencyOut) (hops : route.hops = first :: rest)
    (emitted : Emitted inRouter first.currencyOut rest after)
    (carries : Carries place unspent form first.currencyOut router) :
    Always funding (Paid place (if consumes place route.hops then 0 else unspent) form
      route.currencyOut) after router := by
  have apart := place_ne intent place _ valid at_ served
  cases emitted with
  | nil =>
    have out : route.currencyOut = first.currencyOut := by
      simp [Route.currencyOut, Route.last, hops]
    rw [out] at apart ⊢
    rw [hops, always_nil, if_neg (show ¬consumes place [first] from not_false)]
    exact carries_paid place unspent form _ router apart
      (fun rest stands => stands.nonneg place unspent form rest _ apart.symm) carries
  | cons held second others command later made tail =>
    rcases route.cases_hops with ⟨only, one⟩ | ⟨_, _, two⟩
    · rw [hops] at one
      cases one
    · rw [hops] at two
      cases two
      cases tail
      have out : route.currencyOut = second.currencyOut := by
        simp [Route.currencyOut, Route.last, hops]
      rw [out] at apart ⊢
      rw [hops]
      exact second_swap place unspent form first second router command
        (route.joined first second hops) made apart carries

theorem leg_rests (unspent share : Int) (form : Address) (router : Router)
    (commands : List UrCommand) (valid : Validated intent) (at_ : Place intent place)
    (kept : Form intent form) (served : serves intent route) (amount : share ≠ CONTRACT_BALANCE)
    (nonneg : 0 ≤ share) (enough : share ≤ available intent place route.currencyIn unspent)
    (legForm : LegCommands intent route share commands) (stands : Stands place unspent form router)
    :
    Always funding
      (Rests (entered intent place route.currencyIn)
        (remaining (entered intent place route.currencyIn) route.hops unspent share)
        (exitForm intent route.currencyOut))
      commands router := by
  obtain ⟨first, rest, command, after, hops, made, emitted, rfl⟩ :=
    leg_split intent route share commands legForm
  have start := Route.first_of_hops route first rest hops
  rw [start] at enough ⊢
  obtain ⟨behind, spends, stands⟩ := first_swap intent place unspent share form router first
    command valid at_ kept (by rw [← start]; exact served.1) made amount nonneg stands
  have moved := entered_place intent place first.currencyIn at_
  rw [always_append]
  refine (spends _).mpr ⟨enough, fun output positive => ?_⟩
  refine always_seq (later_hops intent route _ (unspent - share) form _ first rest after valid
    moved served.2 hops emitted ⟨behind, output, positive, stands enough, rfl⟩) ?_
  intro done paid
  exact exit_rests intent _ _ form _ done valid moved kept served.2 paid

theorem leg_needs (unspent share : Int) (form : Address) (router : Router)
    (commands : List UrCommand) (post : Router → Prop) (valid : Validated intent)
    (at_ : Place intent place) (kept : Form intent form) (served : serves intent route)
    (amount : share ≠ CONTRACT_BALANCE) (nonneg : 0 ≤ share)
    (legForm : LegCommands intent route share commands) (stands : Stands place unspent form router)
    (runs : Always funding post commands router) :
    share ≤ available intent place route.currencyIn unspent := by
  obtain ⟨first, rest, command, after, hops, made, emitted, rfl⟩ :=
    leg_split intent route share commands legForm
  have start := Route.first_of_hops route first rest hops
  obtain ⟨behind, spends, -⟩ := first_swap intent place unspent share form router first
    command valid at_ kept (by rw [← start]; exact served.1) made amount nonneg stands
  rw [always_append] at runs
  rw [start]
  exact ((spends _).mp runs).1

/-- The legs of a split, walked with where the unspent input stands and how much
of it there is: every share must be available when its leg starts. -/
def walk (intent : SwapIntent) (net : Int) : Address → Int → Int → List SplitLeg → Prop
  | _, _, _, [] => True
  | place, unspent, allocated, leg :: rest =>
    let share := legShare net intent.amountIn allocated leg rest
    let moved := entered intent place leg.route.currencyIn
    share ≤ available intent place leg.route.currencyIn unspent ∧
      walk intent net moved (remaining moved leg.route.hops unspent share)
        (allocated + share) rest

def walked (intent : SwapIntent) (net : Int) :
    Address → Int → Int → Address → List SplitLeg → Address × Int × Address
  | place, unspent, _, form, [] => (place, unspent, form)
  | place, unspent, allocated, _, leg :: rest =>
    let share := legShare net intent.amountIn allocated leg rest
    let moved := entered intent place leg.route.currencyIn
    walked intent net moved (remaining moved leg.route.hops unspent share)
      (allocated + share) (exitForm intent leg.route.currencyOut) rest

variable (legs : List SplitLeg)

theorem legs_stand (commands : List UrCommand) (valid : Validated intent) (at_ : Place intent place)
    (kept : Form intent form)
    (shares : ∀ share ∈ legShares net intent.amountIn allocated legs,
      0 ≤ share ∧ share ≠ CONTRACT_BALANCE)
    (form_ : LegsCommands intent net allocated legs commands)
    (fed : walk intent net place unspent allocated legs) (stands : Stands place unspent form router)
    :
    Always funding (fun done =>
      let (place, unspent, form) := walked intent net place unspent allocated form legs
      Stands place unspent form done ∧ (legs ≠ [] → 0 < done.held form)) commands router := by
  induction form_ generalizing place unspent form router with
  | nil allocated => exact ⟨stands, fun some => absurd rfl some⟩
  | cons allocated leg rest commands after served made later ih =>
    simp only [legShares, List.forall_mem_cons] at shares
    obtain ⟨⟨nonneg, amount⟩, shares⟩ := shares
    obtain ⟨enough, fed⟩ := fed
    refine always_seq (leg_rests intent leg.route place unspent _ form router commands valid at_
      kept served amount nonneg enough made stands) ?_
    intro between rests
    have tail := ih _ _ _ between (entered_place intent place leg.route.currencyIn at_)
      (exitForm_form intent _) shares fed rests.stands
    cases rest with
    | nil =>
      cases later
      exact ⟨rests.stands, fun _ => rests.received⟩
    | cons next others =>
      exact always_mono (fun done facts => ⟨facts.1, fun _ => facts.2 (by simp)⟩) tail

theorem legs_need (commands : List UrCommand) (post : Router → Prop) (valid : Validated intent)
    (at_ : Place intent place) (kept : Form intent form)
    (shares : ∀ share ∈ legShares net intent.amountIn allocated legs,
      0 ≤ share ∧ share ≠ CONTRACT_BALANCE)
    (form_ : LegsCommands intent net allocated legs commands)
    (stands : Stands place unspent form router) (runs : Always funding post commands router) :
    walk intent net place unspent allocated legs := by
  induction form_ generalizing place unspent form router with
  | nil allocated => trivial
  | cons allocated leg rest commands after served made later ih =>
    simp only [legShares, List.forall_mem_cons] at shares
    obtain ⟨⟨nonneg, amount⟩, shares⟩ := shares
    rw [always_append] at runs
    have enough := leg_needs intent leg.route place unspent _ form router commands _ valid at_
      kept served amount nonneg made stands runs
    have rests := leg_rests intent leg.route place unspent _ form router commands valid at_ kept
      served amount nonneg enough made stands
    obtain ⟨between, rest, tail⟩ := always_exists funding_live (always_and rests runs)
    exact ⟨enough, ih _ _ _ between (entered_place intent place leg.route.currencyIn at_)
      (exitForm_form intent _) shares rest.stands tail⟩

def getsShare (intent : SwapIntent) (net : Int) (leg : SplitLeg) (rest : List SplitLeg) : Prop :=
  if rest = [] then 0 < net else intent.amountIn ≤ leg.amountIn * net

instance (intent : SwapIntent) (net : Int) (leg : SplitLeg) (rest : List SplitLeg) :
    Decidable (getsShare intent net leg rest) := by
  unfold getsShare; infer_instance

/-- No leg with a share starts where the input no longer is, and no leg before the
last one sweeps the unspent input along in its second hop. -/
def Sequenced (intent : SwapIntent) (net : Int) : Address → List SplitLeg → Prop
  | _, [] => True
  | place, leg :: rest =>
    let moved := entered intent place leg.route.currencyIn
    (starved intent place leg.route.currencyIn → ¬getsShare intent net leg rest) ∧
      (consumes moved leg.route.hops → rest = [] ∨ net = 0) ∧ Sequenced intent net moved rest

instance decideSequenced (intent : SwapIntent) (net : Int) (place : Address)
    (legs : List SplitLeg) : Decidable (Sequenced intent net place legs) :=
  match legs with
  | [] => isTrue trivial
  | leg :: rest =>
    have := decideSequenced intent net (entered intent place leg.route.currencyIn) rest
    inferInstanceAs (Decidable (_ ∧ _ ∧ _))

structure Allocated (intent : SwapIntent) (net allocated : Int) (legs : List SplitLeg) :
    Prop where
  whole : 0 < intent.amountIn
  nonneg : 0 ≤ net
  given : 0 ≤ allocated
  amounts : ∀ leg ∈ legs, 0 < leg.amountIn
  behind : allocated * intent.amountIn ≤
    (intent.amountIn - (legs.map SplitLeg.amountIn).sum) * net

theorem Allocated.tail (net allocated : Int) (leg : SplitLeg) (rest : List SplitLeg)
    (some : rest ≠ []) (ok : Allocated intent net allocated (leg :: rest)) :
    Allocated intent net (allocated + legShare net intent.amountIn allocated leg rest) rest := by
  have here := ok.amounts leg List.mem_cons_self
  refine ⟨ok.whole, ok.nonneg, ?_, fun other member => ok.amounts other
    (List.mem_cons_of_mem leg member), ?_⟩
  · rw [legShare, if_neg some]
    exact add_nonneg ok.given (floor_nonneg _ _ _ here.le ok.nonneg ok.whole)
  have floor := floor_mul_le leg.amountIn net intent.amountIn ok.whole
  have behind := ok.behind
  simp only [List.map_cons, List.sum_cons] at behind
  rw [legShare, if_neg some]
  nlinarith

theorem Allocated.shares_nonneg (net allocated : Int) (legs : List SplitLeg)
    (ok : Allocated intent net allocated legs) :
    ∀ share ∈ legShares net intent.amountIn allocated legs, 0 ≤ share := by
  rw [legShares_shares]
  refine ProportionalShares.shares_nonneg net intent.amountIn allocated _ ok.nonneg ok.whole ?_
    ok.behind
  intro weight member
  obtain ⟨leg, inside, rfl⟩ := List.mem_map.mp member
  exact (ok.amounts leg inside).le

theorem Allocated.sum (net allocated : Int) (legs : List SplitLeg) (some : legs ≠ []) :
    (legShares net intent.amountIn allocated legs).sum = net - allocated := by
  rw [legShares_shares, sum_shares _ _ _ _ (by simpa using some)]

theorem Allocated.gets (net allocated : Int) (leg : SplitLeg) (rest : List SplitLeg)
    (ok : Allocated intent net allocated (leg :: rest)) :
    0 < legShare net intent.amountIn allocated leg rest ↔ getsShare intent net leg rest := by
  unfold legShare getsShare
  by_cases last : rest = []
  · subst last
    simp only [if_true]
    have given := ok.given
    have amount := ok.amounts leg List.mem_cons_self
    have whole := ok.whole
    have behind := ok.behind
    simp only [List.map_cons, List.map_nil, List.sum_cons, List.sum_nil, add_zero] at behind
    constructor
    · intro share
      omega
    · intro positive
      nlinarith [mul_pos amount positive]
  · rw [if_neg last, if_neg last, floor_pos _ _ _ ok.whole]

theorem walk_zero (allocated : Int) (legs : List SplitLeg)
    (nonneg : ∀ share ∈ legShares net intent.amountIn allocated legs, 0 ≤ share) :
    walk intent net place 0 allocated legs ↔
      ∀ share ∈ legShares net intent.amountIn allocated legs, share = 0 := by
  induction legs generalizing place allocated with
  | nil => simp [walk, legShares]
  | cons leg rest ih =>
    simp only [legShares, List.forall_mem_cons] at nonneg ⊢
    have none : available intent place leg.route.currencyIn 0 = 0 := by
      unfold available
      split <;> rfl
    rw [walk, none]
    constructor
    · rintro ⟨enough, later⟩
      have zero : legShare net intent.amountIn allocated leg rest = 0 := by omega
      rw [zero] at later
      rw [remaining, sub_zero, ite_self] at later
      rw [zero]
      rw [zero] at nonneg
      exact ⟨rfl, (ih _ _ nonneg.2).mp later⟩
    · rintro ⟨zero, later⟩
      refine ⟨zero.le, ?_⟩
      rw [remaining, zero, sub_zero, ite_self]
      rw [zero] at later nonneg
      exact (ih _ _ nonneg.2).mpr later

theorem sequenced_zero (whole : 0 < intent.amountIn) (place : Address) (legs : List SplitLeg) :
    Sequenced intent 0 place legs := by
  induction legs generalizing place with
  | nil => trivial
  | cons leg rest ih =>
    refine ⟨fun _ gets => ?_, fun _ => Or.inr rfl, ih _⟩
    unfold getsShare at gets
    split at gets <;> omega

theorem later_zero (net allocated : Int) (rest : List SplitLeg) (some : rest ≠ [])
    (ok : Allocated intent net allocated rest) :
    (∀ share ∈ legShares net intent.amountIn allocated rest, share = 0) ↔ net = 0 := by
  have sum := Allocated.sum intent net allocated rest some
  constructor
  · intro zero
    have total : (legShares net intent.amountIn allocated rest).sum = 0 :=
      List.sum_eq_zero zero
    rw [sum] at total
    have given := ok.given
    by_contra ne
    have positive : 0 < net := lt_of_le_of_ne ok.nonneg (Ne.symm ne)
    -- A positive net leaves something for the last leg.
    have amounts := ok.amounts
    have behind := ok.behind
    have whole := ok.whole
    have weights : 0 < (rest.map SplitLeg.amountIn).sum :=
      List.sum_pos _ (by simpa using amounts) (by simpa using some)
    nlinarith [mul_pos weights positive]
  · rintro rfl share member
    have nonneg := ok.shares_nonneg intent 0 allocated rest
    have part := List.single_le_sum nonneg share member
    have low := nonneg share member
    rw [sum] at part
    have given := ok.given
    omega

theorem walk_all (allocated : Int) (legs : List SplitLeg) (some : legs ≠ [])
    (ok : Allocated intent net allocated legs) :
    walk intent net place (net - allocated) allocated legs ↔ Sequenced intent net place legs := by
  induction legs generalizing place allocated with
  | nil => exact absurd rfl some
  | cons leg rest ih =>
    have gets := Allocated.gets intent net allocated leg rest ok
    have nonneg := ok.shares_nonneg intent net allocated (leg :: rest)
    have sum := Allocated.sum intent net allocated (leg :: rest) some
    simp only [legShares, List.forall_mem_cons] at nonneg
    rw [legShares, List.sum_cons] at sum
    have later := List.sum_nonneg nonneg.2
    have fits : legShare net intent.amountIn allocated leg rest ≤ net - allocated := by omega
    have enough : legShare net intent.amountIn allocated leg rest ≤
          available intent place leg.route.currencyIn (net - allocated) ↔
        (starved intent place leg.route.currencyIn → ¬getsShare intent net leg rest) := by
      rw [available, ← gets]
      by_cases hungry : starved intent place leg.route.currencyIn
      · simp [hungry]
      · simp [hungry, fits]
    rw [walk, Sequenced]
    refine and_congr enough ?_
    by_cases last : rest = []
    · subst last
      simp [walk, Sequenced]
    · have tail := Allocated.tail intent net allocated leg rest last ok
      by_cases swept : consumes (entered intent place leg.route.currencyIn) leg.route.hops
      · rw [remaining, if_pos swept, walk_zero _ _ _ _ _ nonneg.2,
          later_zero intent net _ rest last tail]
        simp only [swept, last, false_or, forall_const]
        constructor
        · rintro rfl
          exact ⟨rfl, sequenced_zero intent ok.whole _ rest⟩
        · exact fun facts => facts.1
      · rw [remaining, if_neg swept, sub_sub, ih _ _ last tail]
        simp [swept]

theorem walked_unspent (nonneg : ∀ share ∈ legShares net intent.amountIn allocated legs, 0 ≤ share)
    (whole : unspent = 0 ∨ unspent = (legShares net intent.amountIn allocated legs).sum)
    (fed : walk intent net place unspent allocated legs) :
    (walked intent net place unspent allocated form legs).2.1 = 0 := by
  induction legs generalizing place unspent allocated form with
  | nil => simpa [walked, legShares] using whole
  | cons leg rest ih =>
    simp only [legShares, List.forall_mem_cons, List.sum_cons] at nonneg whole
    obtain ⟨enough, later⟩ := fed
    rw [walked]
    refine ih _ _ _ _ nonneg.2 ?_ later
    unfold remaining
    split
    · exact Or.inl rfl
    · rcases whole with rfl | rfl
      · have none : available intent place leg.route.currencyIn 0 = 0 := by
          unfold available
          split <;> rfl
        rw [none] at enough
        left
        have low := nonneg.1
        omega
      · right
        ring

theorem walked_place (at_ : Place intent place) :
    Place intent (walked intent net place unspent allocated form legs).1 := by
  induction legs generalizing place unspent allocated form with
  | nil => exact at_
  | cons leg rest ih => exact ih _ _ _ _ (entered_place intent place _ at_)

theorem walked_form (last : SplitLeg) (end_ : legs.getLast? = some last) :
    (walked intent net place unspent allocated form legs).2.2 =
      exitForm intent last.route.currencyOut := by
  induction legs generalizing place unspent allocated form with
  | nil => cases end_
  | cons leg rest ih =>
    cases rest with
    | nil =>
      simp only [List.getLast?_singleton, Option.some.injEq] at end_
      subst end_
      rfl
    | cons next others =>
      rw [List.getLast?_cons_cons] at end_
      exact ih _ _ _ (exitForm intent leg.route.currencyOut) end_

end RhPools.SplitFunding
