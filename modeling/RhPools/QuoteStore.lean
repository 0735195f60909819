import RhPools.OrderedTables
import RhPools.GuardedRuns
import RhPools.TxChain

/-! Quotes waiting for their wallet. `TxCore` keeps them in one dictionary under
one lock; storing sweeps what expired and evicts the wallet's oldest, preparing
drops a quote that it found expired. -/

namespace RhPools.QuoteStore
open TxChain OrderedTables GuardedRuns

def MAX_QUOTES_PER_WALLET : Nat := 8

inductive Kind where
  | swap
  | lp
  deriving DecidableEq, Repr

/-- What the store reads of a `SwapQuote` or an `LpQuote`. -/
structure Quote where
  quoteId : String
  wallet : Address
  expiresAt : Int
  kind : Kind
  deriving DecidableEq, Repr

abbrev Quotes := OrderedTable String Quote

def allowed (maxQuotes : Nat) : Nat := min maxQuotes MAX_QUOTES_PER_WALLET

def sweep (now : Int) (quotes : Quotes) : Quotes :=
  quotes.keep (quotes.entries.filter fun entry => ¬entry.2.expiresAt ≤ now) List.filter_sublist

def owned (wallet : Address) (quotes : Quotes) : List (String × Quote) :=
  quotes.entries.filter fun entry => entry.2.wallet = wallet

/-- `TxCore._store` once it holds the lock; with no quote allowed it finds none to evict. -/
def store (maxQuotes : Nat) (now : Int) (quote : Quote) (quotes : Quotes) : Quotes × Try Unit :=
  let swept := sweep now quotes
  if allowed maxQuotes ≤ (owned quote.wallet swept).length then
    match owned quote.wallet swept with
    | [] => (swept, .error .index)
    | oldest :: _ => ((swept.erase oldest.1).assign quote.quoteId quote, .ok ())
  else (swept.assign quote.quoteId quote, .ok ())

def kindOf (quotes : Quotes) (quoteId : String) : Option Kind :=
  (quotes.get quoteId).map Quote.kind

def wellFormed (quoteId : String) : Bool :=
  quoteId.length = 64 && quoteId.toList.all fun digit =>
    ('0' ≤ digit && digit ≤ '9') || ('a' ≤ digit && digit ≤ 'f')

/-- The first part of `TxCore.prepare`, up to the release of the lock. -/
def lookUp (quotes : Quotes) (quoteId : String) : Try Quote :=
  if ¬wellFormed quoteId then .error (.tx "unknown_quote" "quote_id is malformed")
  else match quotes.get quoteId with
    | none => .error (.tx "unknown_quote" "quote is unknown; re-quote")
    | some quote => .ok quote

/-- The next checks of `TxCore.prepare`, with the quotes they leave; those after
them leave the quotes alone. -/
def checkQuote (clock : Int) (wallet : Address) (quote : Quote) (quotes : Quotes) : Quotes × Try Unit :=
  if clock ≥ quote.expiresAt then
    (quotes.erase quote.quoteId, .error (.tx "expired" "quote expired; re-quote"))
  else if wallet ≠ quote.wallet then
    (quotes, .error (.tx "wallet_mismatch" "connected wallet is not the quoted wallet"))
  else (quotes, .ok ())

/-- The store with what a run remembers: every quote stored so far, oldest first,
and the quotes that `prepare` calls looked up. -/
structure State where
  clock : Int
  quotes : Quotes
  issued : List Quote
  lookedUp : List Quote

inductive Action where
  /-- Time passes. -/
  | advance (clock : Int)
  /-- `_store` takes the lock; `now` is the clock it read before. -/
  | store (quote : Quote) (now : Int)
  | kindOf (quoteId : String)
  /-- `prepare` looks the quote up under the lock. -/
  | lookUp (quoteId : String)
  /-- `prepare` checks a quote that it looked up. -/
  | prepare (quote : Quote) (wallet : Address)
  deriving DecidableEq

/-- A quote id is a hash of fresh random bytes, so no id is stored twice. -/
def step (maxQuotes : Nat) (state : State) : Action → Option State
  | .advance clock => if state.clock ≤ clock then some { state with clock := clock } else none
  | .store quote now =>
    if now ≤ state.clock ∧ quote.quoteId ∉ state.issued.map Quote.quoteId then
      match store maxQuotes now quote state.quotes with
      | (quotes, .ok ()) =>
        some { state with quotes := quotes, issued := state.issued ++ [quote] }
      | (quotes, .error _) => some { state with quotes := quotes }
    else none
  | .kindOf _ => some state
  | .lookUp quoteId =>
    match lookUp state.quotes quoteId with
    | .ok quote => some { state with lookedUp := quote :: state.lookedUp }
    | .error _ => some state
  | .prepare quote wallet =>
    if quote ∈ state.lookedUp then
      some { state with quotes := (checkQuote state.clock wallet quote state.quotes).1 }
    else none

def initial (clock : Int) : State := ⟨clock, .empty, [], []⟩

def quoteStore (maxQuotes : Nat) : System State Action where
  start state := ∃ clock, state = initial clock
  step := step maxQuotes

def Stored (state : State) (quote : Quote) : Prop := (quote.quoteId, quote) ∈ state.quotes.entries

/-- As many newer quotes of the same wallet were stored as a wallet may have. -/
def Outnumbered (maxQuotes : Nat) (state : State) (quote : Quote) : Prop :=
  ∃ older newer, state.issued = older ++ quote :: newer ∧
    allowed maxQuotes ≤ newer.countP fun other => other.wallet = quote.wallet

theorem mem_sweep {now : Int} {quotes : Quotes} {entry : String × Quote} :
    entry ∈ (sweep now quotes).entries ↔ entry ∈ quotes.entries ∧ now < entry.2.expiresAt := by
  simp [sweep, OrderedTable.keep]

theorem mem_owned {wallet : Address} {quotes : Quotes} {entry : String × Quote} :
    entry ∈ owned wallet quotes ↔ entry ∈ quotes.entries ∧ entry.2.wallet = wallet := by
  simp [owned]

theorem owned_sublist {part whole : Quotes} (wallet : Address)
    (inside : part.entries.Sublist whole.entries) :
    (owned wallet part).Sublist (owned wallet whole) := inside.filter _

theorem owned_erase (wallet : Address) (quotes : Quotes) (key : String) :
    owned wallet (quotes.erase key) = (owned wallet quotes).filter fun entry => entry.1 ≠ key := by
  simp only [owned, OrderedTable.erase, OrderedTable.keep, List.filter_filter, Bool.and_comm]

/-- Storing refuses when no quote is allowed, evicts the wallet's oldest when it
has as many as allowed, and adds the quote at the new end. -/
inductive Stores (maxQuotes : Nat) (quote : Quote) (swept : Quotes) : Quotes → Try Unit → Prop where
  | refused (nobody : allowed maxQuotes = 0) : Stores maxQuotes quote swept swept (.error .index)
  | evicted (quotes : Quotes) (oldest : String × Quote) (others : List (String × Quote))
      (own : owned quote.wallet swept = oldest :: others)
      (full : allowed maxQuotes ≤ others.length + 1)
      (placed : quotes.entries = (swept.erase oldest.1).entries ++ [(quote.quoteId, quote)]) :
      Stores maxQuotes quote swept quotes (.ok ())
  | added (quotes : Quotes) (room : (owned quote.wallet swept).length < allowed maxQuotes)
      (placed : quotes.entries = swept.entries ++ [(quote.quoteId, quote)]) :
      Stores maxQuotes quote swept quotes (.ok ())

theorem store_stores (maxQuotes : Nat) (now : Int) (quote : Quote) (quotes : Quotes)
    (fresh : quote.quoteId ∉ quotes.entries.map Prod.fst) :
    Stores maxQuotes quote (sweep now quotes) (store maxQuotes now quote quotes).1
      (store maxQuotes now quote quotes).2 := by
  have swept : quote.quoteId ∉ (sweep now quotes).entries.map Prod.fst := by
    intro member
    obtain ⟨entry, there, same⟩ := List.mem_map.mp member
    exact fresh (same ▸ List.mem_map_of_mem (mem_sweep.mp there).1)
  unfold store
  simp only
  split
  · rename_i full
    cases own : owned quote.wallet (sweep now quotes) with
    | nil =>
      apply Stores.refused
      simpa [own] using full
    | cons oldest others =>
      have gone : quote.quoteId ∉ ((sweep now quotes).erase oldest.1).entries.map Prod.fst := by
        intro member
        obtain ⟨entry, there, same⟩ := List.mem_map.mp member
        exact swept (same ▸ List.mem_map_of_mem ((mem_erase _ _ _).mp there).1)
      rw [own] at full
      exact .evicted _ oldest others own full (entries_assign _ _ _ gone)
  · rename_i room
    exact .added _ (by omega) (entries_assign _ _ _ swept)

theorem owned_append {quotes part : Quotes} {quote : Quote}
    (placed : quotes.entries = part.entries ++ [(quote.quoteId, quote)]) (wallet : Address) :
    (owned wallet quotes).length =
      (owned wallet part).length + if quote.wallet = wallet then 1 else 0 := by
  rw [owned, placed, List.filter_append, List.length_append]
  by_cases own : quote.wallet = wallet <;> simp [owned, own]

variable {maxQuotes : Nat}

theorem Stores.capped {quote : Quote} {swept quotes : Quotes} {result : Try Unit}
    (stores : Stores maxQuotes quote swept quotes result)
    (before : ∀ wallet, (owned wallet swept).length ≤ allowed maxQuotes) (wallet : Address) :
    (owned wallet quotes).length ≤ allowed maxQuotes := by
  cases stores with
  | refused nobody => exact before wallet
  | evicted _ oldest others own full placed =>
    have capped := before quote.wallet
    rw [owned_append placed, owned_erase]
    split
    · rename_i same
      subst same
      rw [own, List.length_cons] at capped
      rw [own, List.filter_cons_of_neg (by simp)]
      have := List.length_filter_le (fun entry => decide (entry.1 ≠ oldest.1)) others
      omega
    · exact (List.length_filter_le _ _).trans (before wallet)
  | added _ room placed =>
    rw [owned_append placed]
    split
    · rename_i same
      subst same
      omega
    · exact before wallet

/-- The quotes are stored under their ids, in the order they were issued. -/
structure Kept (maxQuotes : Nat) (state : State) : Prop where
  keyed : ∀ entry ∈ state.quotes.entries, entry.1 = entry.2.quoteId
  listed : (state.quotes.entries.map Prod.snd).Sublist state.issued
  unique : (state.issued.map Quote.quoteId).Nodup
  capped : ∀ wallet, (owned wallet state.quotes).length ≤ allowed maxQuotes
  gone : ∀ quote ∈ state.issued, Stored state quote ∨ quote.expiresAt ≤ state.clock ∨
    Outnumbered maxQuotes state quote
  seen : ∀ quote ∈ state.lookedUp, quote ∈ state.issued

theorem Kept.stored_issued {state : State} (kept : Kept maxQuotes state) {quote : Quote}
    (stored : Stored state quote) : quote ∈ state.issued :=
  kept.listed.mem (List.mem_map_of_mem (f := Prod.snd) stored)

theorem Kept.entry_stored {state : State} (kept : Kept maxQuotes state) {entry : String × Quote}
    (member : entry ∈ state.quotes.entries) : Stored state entry.2 := by
  have same := kept.keyed entry member
  rw [Stored, ← same]
  exact member

theorem Kept.same_id {state : State} (kept : Kept maxQuotes state) {first second : Quote}
    (here : first ∈ state.issued) (there : second ∈ state.issued)
    (same : first.quoteId = second.quoteId) : first = second :=
  List.inj_on_of_nodup_map kept.unique here there same

variable {state next : State}

theorem Outnumbered.grow {quote : Quote} (outnumbered : Outnumbered maxQuotes state quote)
    (more : List Quote) (issued : next.issued = state.issued ++ more) :
    Outnumbered maxQuotes next quote := by
  obtain ⟨older, newer, split, enough⟩ := outnumbered
  refine ⟨older, newer ++ more, ?_, ?_⟩
  · rw [issued, split, List.append_assoc, List.cons_append]
  · rw [List.countP_append]
    omega

/-- A quote's wallet's stored quotes beside it are newer: the dictionary keeps the
order of issue. -/
theorem head_outnumbered {issued : List Quote} {oldest : Quote} {others : List Quote}
    (ordered : (oldest :: others).Sublist issued) :
    ∃ older newer, issued = older ++ oldest :: newer ∧ others.Sublist newer := by
  obtain ⟨first, second, rfl, member, rest⟩ := List.cons_sublist_iff.mp ordered
  obtain ⟨older, between, rfl⟩ := List.append_of_mem member
  exact ⟨older, between ++ second, by simp, rest.trans (List.sublist_append_right _ _)⟩

theorem swept_or_expired (now : Int) {state : State} {quote : Quote} (stored : Stored state quote) :
    (quote.quoteId, quote) ∈ (sweep now state.quotes).entries ∨ quote.expiresAt ≤ now := by
  rcases le_or_gt quote.expiresAt now with expired | lives
  · exact .inr expired
  · exact .inl (mem_sweep.mpr ⟨stored, lives⟩)

section Storing
variable {maxQuotes : Nat} {state : State} (kept : Kept maxQuotes state) (now : Int)
include kept

theorem Kept.swept_listed : ((sweep now state.quotes).entries.map Prod.snd).Sublist state.issued :=
  (List.filter_sublist.map Prod.snd).trans kept.listed

theorem Kept.swept_keyed {entry : String × Quote}
    (member : entry ∈ (sweep now state.quotes).entries) : entry = (entry.2.quoteId, entry.2) := by
  rw [← kept.keyed entry (mem_sweep.mp member).1]

theorem Kept.fresh_key {quote : Quote} (fresh : quote.quoteId ∉ state.issued.map Quote.quoteId) :
    quote.quoteId ∉ state.quotes.entries.map Prod.fst := by
  intro member
  obtain ⟨entry, there, same⟩ := List.mem_map.mp member
  apply fresh
  rw [← same, kept.keyed entry there]
  exact List.mem_map_of_mem (kept.stored_issued (kept.entry_stored there))

theorem Kept.evicted_first {wallet : Address} {oldest : String × Quote}
    {others : List (String × Quote)}
    (own : owned wallet (sweep now state.quotes) = oldest :: others) :
    (oldest.2 :: others.map Prod.snd).Sublist state.issued := by
  have part : (oldest :: others).Sublist (sweep now state.quotes).entries :=
    own ▸ List.filter_sublist
  exact (part.map Prod.snd).trans (kept.swept_listed now)

theorem Kept.evicted_outnumbered {quote : Quote} {oldest : String × Quote}
    {others : List (String × Quote)} {next : State}
    (own : owned quote.wallet (sweep now state.quotes) = oldest :: others)
    (full : allowed maxQuotes ≤ others.length + 1) (issued : next.issued = state.issued ++ [quote]) :
    Outnumbered maxQuotes next oldest.2 := by
  obtain ⟨older, newer, split, inside⟩ := head_outnumbered (kept.evicted_first now own)
  have wallets : ∀ entry ∈ oldest :: others, entry.2.wallet = quote.wallet := by
    intro entry member
    exact (mem_owned.mp (own ▸ member)).2
  have same := wallets oldest (.head _)
  have counted : others.length ≤ newer.countP fun other => other.wallet = oldest.2.wallet := by
    have all : (others.map Prod.snd).countP (fun other => other.wallet = oldest.2.wallet) =
        others.length := by
      rw [show others.length = (others.map Prod.snd).length from (List.length_map _).symm]
      apply List.countP_eq_length.mpr
      intro other member
      obtain ⟨entry, there, rfl⟩ := List.mem_map.mp member
      simp [same, wallets entry (.tail _ there)]
    exact all ▸ inside.countP_le
  refine ⟨older, newer ++ [quote], by simp [issued, split], ?_⟩
  rw [List.countP_append, same] at *
  simp
  omega

theorem Kept.evicted_oldest {quote other : Quote} {oldest : String × Quote}
    {others : List (String × Quote)} {quotes : Quotes}
    (own : owned quote.wallet (sweep now state.quotes) = oldest :: others)
    (placed : quotes.entries =
      ((sweep now state.quotes).erase oldest.1).entries ++ [(quote.quoteId, quote)])
    (member : (other.quoteId, other) ∈ quotes.entries) (same : other.wallet = quote.wallet) :
    [oldest.2, other].Sublist (state.issued ++ [quote]) := by
  have ordered := kept.evicted_first now own
  rw [placed, List.mem_append, List.mem_singleton] at member
  rcases member with old | new
  · obtain ⟨there, apart⟩ := (mem_erase _ _ _).mp old
    have mine : (other.quoteId, other) ∈ oldest :: others := own ▸ mem_owned.mpr ⟨there, same⟩
    have rest : (other.quoteId, other) ∈ others := by
      rcases List.mem_cons.mp mine with first | rest
      · exact absurd (first ▸ rfl) apart
      · exact rest
    have kept_one : [other].Sublist (others.map Prod.snd) :=
      List.singleton_sublist.mpr (List.mem_map_of_mem (f := Prod.snd) rest)
    exact ((kept_one.cons_cons oldest.2).trans ordered).trans (List.sublist_append_left _ _)
  · obtain ⟨-, rfl⟩ := Prod.mk.inj new
    have first : [oldest.2].Sublist state.issued :=
      List.singleton_sublist.mpr (ordered.mem (.head _))
    exact first.append (List.Sublist.refl [other])

end Storing

inductive Steps (maxQuotes : Nat) (state : State) : Action → State → Prop where
  | advance (clock : Int) (later : state.clock ≤ clock) :
      Steps maxQuotes state (.advance clock) { state with clock := clock }
  | refused (quote : Quote) (now : Int) (past : now ≤ state.clock) (nobody : allowed maxQuotes = 0) :
      Steps maxQuotes state (.store quote now)
        { state with quotes := sweep now state.quotes }
  | stored (quote : Quote) (now : Int) (quotes : Quotes) (past : now ≤ state.clock)
      (fresh : quote.quoteId ∉ state.issued.map Quote.quoteId)
      (stores : Stores maxQuotes quote (sweep now state.quotes) quotes (.ok ())) :
      Steps maxQuotes state (.store quote now)
        { state with quotes := quotes, issued := state.issued ++ [quote] }
  | idle (action : Action) : Steps maxQuotes state action state
  | found (quoteId : String) (quote : Quote) (held : state.quotes.get quoteId = some quote) :
      Steps maxQuotes state (.lookUp quoteId)
        { state with lookedUp := quote :: state.lookedUp }
  | dropped (quote : Quote) (wallet : Address) (seen : quote ∈ state.lookedUp)
      (expired : quote.expiresAt ≤ state.clock) : Steps maxQuotes state (.prepare quote wallet)
        { state with quotes := state.quotes.erase quote.quoteId }

theorem lookUp_ok (quotes : Quotes) (quoteId : String) (quote : Quote)
    (found : lookUp quotes quoteId = .ok quote) : quotes.get quoteId = some quote := by
  unfold lookUp at found
  split at found
  · cases found
  split at found
  · cases found
  · rename_i held
    cases found
    exact held

variable {action : Action}

theorem step_steps (kept : Kept maxQuotes state) (stepped : step maxQuotes state action = some next)
    :
    Steps maxQuotes state action next := by
  cases action with
  | advance clock =>
    obtain ⟨later, rfl⟩ : state.clock ≤ clock ∧ { state with clock := clock } = next := by
      simpa [step] using stepped
    exact .advance clock later
  | store quote now =>
    simp only [step] at stepped
    split at stepped
    · rename_i guard
      have stores := store_stores maxQuotes now quote state.quotes (kept.fresh_key guard.2)
      split at stepped
      · rename_i quotes same
        rw [same] at stores
        cases stepped
        exact .stored quote now quotes guard.1 guard.2 stores
      · rename_i quotes failure same
        rw [same] at stores
        cases stepped
        cases stores with
        | refused nobody => exact .refused quote now guard.1 nobody
    · cases stepped
  | kindOf quoteId =>
    cases stepped
    exact .idle _
  | lookUp quoteId =>
    simp only [step] at stepped
    split at stepped
    · rename_i quote found
      cases stepped
      exact .found quoteId quote (lookUp_ok _ _ _ found)
    · cases stepped
      exact .idle _
  | prepare quote wallet =>
    simp only [step, checkQuote] at stepped
    split at stepped
    · rename_i seen
      split at stepped
      · rename_i expired
        cases stepped
        exact .dropped quote wallet seen expired
      split at stepped
      · cases stepped
        exact .idle _
      · cases stepped
        exact .idle _
    · cases stepped

/-- A quote that a step removes has expired, or its own wallet stores a newer one
and it is the oldest the wallet has. -/
theorem Steps.removes (steps : Steps maxQuotes state action next) (kept : Kept maxQuotes state)
    (quote : Quote) (stored : Stored state quote) :
    Stored next quote ∨ quote.expiresAt ≤ state.clock ∨
      Outnumbered maxQuotes next quote ∧ ∃ newer now, action = .store newer now ∧
        newer.wallet = quote.wallet ∧ ∀ other, Stored next other → other.wallet = quote.wallet →
          [quote, other].Sublist next.issued := by
  cases steps with
  | advance clock later => exact .inl stored
  | refused newer now past nobody =>
    rcases swept_or_expired now stored with lives | expired
    · exact .inl lives
    · exact .inr (.inl (expired.trans past))
  | stored newer now quotes past fresh stores =>
    rcases swept_or_expired now stored with lives | expired
    · cases stores with
      | evicted _ oldest others own full placed =>
        obtain ⟨there, wallet⟩ := mem_owned.mp (own ▸ List.mem_cons_self : oldest ∈ _)
        by_cases same : quote.quoteId = oldest.1
        · have entry := kept.swept_keyed now there
          have identical : quote = oldest.2 := by
            apply kept.same_id (kept.stored_issued stored)
            · exact kept.stored_issued (kept.entry_stored (mem_sweep.mp there).1)
            · exact same.trans (kept.keyed oldest (mem_sweep.mp there).1)
          subst identical
          refine .inr (.inr ⟨kept.evicted_outnumbered now own full rfl, newer, now, rfl,
            wallet.symm, ?_⟩)
          intro other member own_wallet
          exact kept.evicted_oldest now own placed member (own_wallet.trans wallet)
        · left
          show (quote.quoteId, quote) ∈ quotes.entries
          rw [placed]
          exact List.mem_append_left _ ((mem_erase _ _ _).mpr ⟨lives, same⟩)
      | added _ room placed =>
        left
        show (quote.quoteId, quote) ∈ quotes.entries
        rw [placed]
        exact List.mem_append_left _ lives
    · exact .inr (.inl (expired.trans past))
  | idle => exact .inl stored
  | found quoteId held => exact .inl stored
  | dropped gone wallet seen expired =>
    by_cases same : quote.quoteId = gone.quoteId
    · have : quote = gone := kept.same_id (kept.stored_issued stored) (kept.seen gone seen) same
      subst this
      exact .inr (.inl expired)
    · exact .inl ((mem_erase _ _ _).mpr ⟨stored, same⟩)

theorem Stores.placed {quote : Quote} {swept quotes : Quotes}
    (stores : Stores maxQuotes quote swept quotes (.ok ())) :
    ∃ part : Quotes, part.entries.Sublist swept.entries ∧
      quotes.entries = part.entries ++ [(quote.quoteId, quote)] := by
  cases stores with
  | evicted _ oldest others own full placed => exact ⟨_, List.filter_sublist, placed⟩
  | added _ room placed => exact ⟨_, List.Sublist.refl _, placed⟩

theorem Kept.keep {state : State} (kept : Kept maxQuotes state) (part : Quotes)
    (inside : part.entries.Sublist state.quotes.entries) :
    (∀ entry ∈ part.entries, entry.1 = entry.2.quoteId) ∧
      (part.entries.map Prod.snd).Sublist state.issued ∧
      ∀ wallet, (owned wallet part).length ≤ allowed maxQuotes :=
  ⟨fun entry member => kept.keyed entry (inside.mem member), (inside.map _).trans kept.listed,
    fun wallet => (owned_sublist wallet inside).length_le.trans (kept.capped wallet)⟩

theorem Steps.kept (steps : Steps maxQuotes state action next) (kept : Kept maxQuotes state) :
    Kept maxQuotes next := by
  have removes := steps.removes kept
  cases steps with
  | advance clock later =>
    refine ⟨kept.keyed, kept.listed, kept.unique, kept.capped, ?_, kept.seen⟩
    intro quote issued
    rcases kept.gone quote issued with stored | expired | outnumbered
    · exact .inl stored
    · exact .inr (.inl (expired.trans later))
    · exact .inr (.inr outnumbered)
  | refused quote now past nobody =>
    obtain ⟨keyed, listed, capped⟩ := kept.keep (sweep now state.quotes) List.filter_sublist
    refine ⟨keyed, listed, kept.unique, capped, ?_, kept.seen⟩
    intro quote issued
    rcases kept.gone quote issued with stored | old
    · exact (removes quote stored).imp_right (Or.imp_right And.left)
    · exact .inr old
  | stored newer now quotes past fresh stores =>
    obtain ⟨part, inside, placed⟩ := stores.placed
    obtain ⟨keyed, listed, _⟩ := kept.keep part (inside.trans List.filter_sublist)
    obtain ⟨_, _, capped⟩ := kept.keep (sweep now state.quotes) List.filter_sublist
    refine ⟨?_, ?_, ?_, stores.capped capped, ?_, ?_⟩
    · intro entry member
      rw [placed, List.mem_append, List.mem_singleton] at member
      rcases member with old | rfl
      · exact keyed entry old
      · rfl
    · rw [placed, List.map_append]
      exact listed.append (List.Sublist.refl _)
    · rw [List.map_append, List.map_singleton, ← List.concat_eq_append, List.nodup_concat]
      exact ⟨fresh, kept.unique⟩
    · intro quote issued
      rcases List.mem_append.mp issued with old | new
      · rcases kept.gone quote old with stored | expired | outnumbered
        · exact (removes quote stored).imp_right (Or.imp_right And.left)
        · exact .inr (.inl expired)
        · exact .inr (.inr (outnumbered.grow [newer] rfl))
      · obtain rfl := List.mem_singleton.mp new
        left
        show (quote.quoteId, quote) ∈ quotes.entries
        rw [placed]
        exact List.mem_append_right _ (.head _)
    · intro quote seen
      exact List.mem_append_left _ (kept.seen quote seen)
  | idle => exact kept
  | found quoteId quote held =>
    refine ⟨kept.keyed, kept.listed, kept.unique, kept.capped, kept.gone, ?_⟩
    intro other seen
    rcases List.mem_cons.mp seen with rfl | old
    · exact kept.stored_issued (kept.entry_stored ((get_some _ _ _).mp held))
    · exact kept.seen other old
  | dropped gone wallet seen expired =>
    obtain ⟨keyed, listed, capped⟩ :=
      kept.keep (state.quotes.erase gone.quoteId) List.filter_sublist
    refine ⟨keyed, listed, kept.unique, capped, ?_, kept.seen⟩
    intro quote issued
    rcases kept.gone quote issued with stored | old
    · exact (removes quote stored).imp_right (Or.imp_right And.left)
    · exact .inr old

theorem initial_kept (maxQuotes : Nat) (clock : Int) : Kept maxQuotes (initial clock) := by
  refine ⟨?_, List.nil_sublist _, List.nodup_nil, fun _ => Nat.zero_le _, ?_, ?_⟩
  · intro entry member
    cases member
  · intro quote issued
    cases issued
  · intro quote seen
    cases seen

theorem reached_kept (maxQuotes : Nat) (state : State)
    (reached : (quoteStore maxQuotes).Reaches always state) : Kept maxQuotes state := by
  refine System.Reaches.invariant (Kept maxQuotes) ?_ ?_ state reached
  · rintro state ⟨clock, rfl⟩
    exact initial_kept maxQuotes clock
  · intro state action next kept _ stepped
    exact (step_steps kept stepped).kept kept

/-- In every run a wallet has at most the allowed number of quotes; a quote that is
gone expired or was outnumbered by newer quotes of its own wallet; and a step
removes an unexpired quote only for its own wallet, which had none older. -/
theorem quotes_isolated (maxQuotes : Nat) (state : State)
    (reached : (quoteStore maxQuotes).Reaches always state) :
    (∀ wallet, (owned wallet state.quotes).length ≤ min maxQuotes MAX_QUOTES_PER_WALLET) ∧
    (∀ quote ∈ state.issued, Stored state quote ∨ quote.expiresAt ≤ state.clock ∨
      Outnumbered maxQuotes state quote) ∧
    ∀ action next, step maxQuotes state action = some next → ∀ quote, Stored state quote →
      Stored next quote ∨ quote.expiresAt ≤ state.clock ∨
        Outnumbered maxQuotes next quote ∧ ∃ newer now, action = .store newer now ∧
          newer.wallet = quote.wallet ∧ ∀ other, Stored next other → other.wallet = quote.wallet →
            [quote, other].Sublist next.issued := by
  have kept := reached_kept maxQuotes state reached
  refine ⟨kept.capped, kept.gone, ?_⟩
  intro action next stepped quote stored
  exact (step_steps kept stepped).removes kept quote stored

def sampleQuote (quoteId : String) (wallet : Address) : Quote := ⟨quoteId, wallet, 1060, .swap⟩

def sampleTurns : List Action :=
  [.store (sampleQuote "a" 1) 1000, .store (sampleQuote "b" 2) 1000,
    .store (sampleQuote "c" 1) 1000, .advance 1059, .store (sampleQuote "d" 1) 1059,
    .kindOf "b", .advance 1060]

theorem sampleTurns_taken :
    ((quoteStore 2).run (initial 1000) sampleTurns).isSome := by decide

def sampleState : State := ((quoteStore 2).run (initial 1000) sampleTurns).get sampleTurns_taken

example : sampleState.quotes.entries.map Prod.fst = ["b", "c", "d"] := by decide

theorem quotes_isolated_sample :
    (∀ wallet, (owned wallet sampleState.quotes).length ≤ min 2 MAX_QUOTES_PER_WALLET) ∧
    ∀ quote ∈ sampleState.issued, Stored sampleState quote ∨
      quote.expiresAt ≤ sampleState.clock ∨ Outnumbered 2 sampleState quote := by
  have reached : (quoteStore 2).Reaches always sampleState :=
    System.Reaches.run (initial 1000) sampleState sampleTurns (.start _ ⟨1000, rfl⟩)
      (System.runMeets_always _ _) (Option.some_get _).symm
  obtain ⟨capped, gone, _⟩ := quotes_isolated 2 sampleState reached
  exact ⟨capped, gone⟩

end RhPools.QuoteStore
