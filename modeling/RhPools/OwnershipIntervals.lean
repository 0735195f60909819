import RhPools.PositionReplay

/-! The intervals of ownership of a position. An interval ends when the position passes from the
owner that is known to another, and one begins for the owner that an event shows or a transfer
names. A transfer to the owner that is known, from someone else, begins another interval and ends
none; without such a transfer the intervals lie one after the other. -/

namespace RhPools.OwnershipIntervals
open TxChain EventWords MarketTables ChangeLogs PositionEvents PositionReplay

structure Holder where
  owner : Option Address
  minted : Bool
  deriving DecidableEq

def Holder.nobody : Holder := ⟨none, false⟩

def transfers (event : Event) : Bool := event.kind = .transfer || event.protocol = some .nft

def fromZero (event : Event) : Bool := transferSource event = some zeroAddress

def Holder.next (holder : Holder) (event : Event) : Holder :=
  if transfers event then
    match transferTarget event with
    | none => .nobody
    | some target =>
      if some target = holder.owner ∧ ((fromZero event ∧ holder.minted) ∨
          transferSource event = holder.owner) then holder
      else ⟨some target, fromZero event⟩
  else
    match holder.owner, event.owner with
    | none, some owner => ⟨some owner, event.data.verifiedMintAfter⟩
    | _, _ => holder

/-- A transfer to the owner that is known, from someone else or no one known; a mint after the
owner's interval began with one is none. -/
def reopens (holder : Holder) (event : Event) : Bool :=
  transfers event && (transferTarget event).isSome && transferTarget event = holder.owner &&
    !(fromZero event && holder.minted) && transferSource event ≠ holder.owner

def regular : Holder → List Event → Bool
  | _, [] => true
  | holder, event :: rest => !reopens holder event && regular (holder.next event) rest

def place (spot : Spot) : Int ×ₗ Int ×ₗ Int :=
  toLex (spot.block, toLex (spot.txIndex, spot.logIndex))

def Covers (interval : Ownership) (spot : Spot) : Prop :=
  place interval.startSpot ≤ place spot ∧ ∀ finish ∈ interval.finish, place spot < place finish.1

abbrev Book := Int → Option Ownership

def intervalOf : Row → Option Ownership
  | .ownership interval => some interval
  | _ => none

def bookOf (rows : Rows) : Book := fun ordinal => (rows (.ownership ordinal)).bind intervalOf

/-- No two intervals have a place in common, and one is open, that of the owner, while an owner
is known. -/
structure Tidy (book : Book) (owner : Option Address) : Prop where
  apart : ∀ ordinal other first second, ordinal ≠ other → book ordinal = some first →
    book other = some second → ∀ spot, ¬(Covers first spot ∧ Covers second spot)
  single : ∀ ordinal other first second, book ordinal = some first →
    book other = some second → first.finish = none → second.finish = none → ordinal = other
  known : ∀ address, owner = some address ↔
    ∃ ordinal interval, book ordinal = some interval ∧ interval.finish = none ∧
      interval.owner = address

structure Held where
  owner : Option Address
  active : Option Ownership
  ordinal : Int

def heldOf (state : Position) : Held :=
  ⟨state.owner, state.activeOwnership, state.ownershipOrdinal⟩

def holderOf (held : Held) : Holder :=
  ⟨held.owner, held.active.any fun interval => interval.acquiredBy = .mint⟩

def savedInterval : Saved → Option Ownership
  | .ownership interval => some interval
  | _ => none

def intervalsOf (saved : List Saved) : List Ownership := saved.filterMap savedInterval

structure Begins (spot : Spot) (held : Held) (interval : Ownership) : Prop where
  ordinal : interval.ordinal = held.ordinal + 1
  start : interval.startSpot = spot
  running : interval.finish = none

def Held.begin (held : Held) (interval : Ownership) : Held :=
  ⟨some interval.owner, some interval, held.ordinal + 1⟩

def Ownership.completed (interval : Ownership) : Ownership := { interval with complete := true }

inductive Fair (spot : Spot) : Held → Held → List Ownership → Prop
  | keep (held : Held) : Fair spot held held []
  | completes (held : Held) (interval : Ownership) (active : held.active = some interval) :
      Fair spot held { held with active := some (Ownership.completed interval) }
        [Ownership.completed interval]
  | ends (held : Held) (interval : Ownership) (time : Int) (complete : Bool)
      (active : held.active = some interval) :
      Fair spot held ⟨none, none, held.ordinal⟩
        [{ interval with finish := some (spot, time), complete := complete }]
  | begins (held : Held) (interval : Ownership) (inactive : held.active = none)
      (new : Begins spot held interval) : Fair spot held (held.begin interval) [interval]
  | trans (held middle after : Held) (first second : List Ownership)
      (early : Fair spot held middle first) (late : Fair spot middle after second) :
      Fair spot held after (first ++ second)

theorem Fair.opening {spot : Spot} {held after : Held} {intervals : List Ownership}
    {interval : Ownership} (listed : intervals = [interval]) (begun : after = held.begin interval)
    (inactive : held.active = none) (new : Begins spot held interval) :
    Fair spot held after intervals := by
  rw [listed, begun]
  exact .begins held interval inactive new

def Reopens (spot : Spot) (held after : Held) (intervals : List Ownership) : Prop :=
  ∃ old interval, held.active = some old ∧ Begins spot held interval ∧
    after = held.begin interval ∧ intervals = [interval]

def Linked (held : Held) : Prop := held.owner = held.active.map Ownership.owner

def Steady (before : Position) (after : Position × List Saved) : Prop :=
  heldOf after.1 = heldOf before ∧ intervalsOf after.2 = []

theorem intervalsOf_append (first second : List Saved) :
    intervalsOf (first ++ second) = intervalsOf first ++ intervalsOf second :=
  List.filterMap_append

theorem Steady.trans {before middle after : Position} {first second : List Saved}
    (early : Steady before (middle, first)) (late : Steady middle (after, second)) :
    Steady before (after, first ++ second) := by
  refine ⟨late.1.trans early.1, ?_⟩
  have none_first := early.2
  have none_second := late.2
  rw [intervalsOf_append, none_first, none_second]
  rfl

section
variable (book : Book) (interval : Ownership) (holder : Holder) (ids : Ids) (pool : Decimals)
  (state : Position) (event : Event)

theorem endEpisode_steady :
    Steady state (endEpisode state event) := by
  unfold endEpisode
  split
  · split
    · exact ⟨rfl, rfl⟩
    · split
      · split
        · exact ⟨rfl, rfl⟩
        · exact ⟨rfl, rfl⟩
      · exact ⟨rfl, rfl⟩
  · exact ⟨rfl, rfl⟩

theorem leaveEpisode_steady :
    Steady state ((leaveEpisode state event).1, (leaveEpisode state event).2.1) := by
  unfold leaveEpisode
  split
  · split
    · exact ⟨rfl, rfl⟩
    · exact ⟨rfl, rfl⟩
  · exact ⟨rfl, rfl⟩

theorem enterEpisode_steady (seen state : Position) (event : Event) :
    Steady state (enterEpisode ids seen state event) := by
  unfold enterEpisode
  split
  · have steady := leaveEpisode_steady state event
    rcases leaving : leaveEpisode state event with ⟨left, saved, reentered⟩
    rw [leaving] at steady
    exact steady
  · split
    · exact ⟨rfl, rfl⟩
    · exact ⟨rfl, rfl⟩

theorem closeEpisode_steady (protocol : ProtocolName) :
    Steady state (closeEpisode state event protocol) := by
  unfold closeEpisode
  split
  · exact ⟨rfl, rfl⟩
  · split
    · split
      · exact ⟨rfl, rfl⟩
      · exact ⟨rfl, rfl⟩
    · split
      · split
        · exact ⟨rfl, rfl⟩
        · exact ⟨rfl, rfl⟩
      · split
        · exact ⟨rfl, rfl⟩
        · exact ⟨rfl, rfl⟩

theorem updateClaimState_held (effect : Effect) :
    heldOf (updateClaimState state event effect) = heldOf state := by
  have moved : heldOf (movePending state event effect) = heldOf state := by
    unfold movePending
    split
    · split
      · split
        · rfl
        · rfl
      · rfl
    · split
      · split
        · rfl
        · rfl
      · rfl
    · rfl
  have read (other : Position) : heldOf (readOwed other event) = heldOf other := by
    unfold readOwed
    split
    · rfl
    · split
      · rfl
      · rfl
  unfold updateClaimState
  rw [read]
  split
  · exact moved
  · rfl

theorem account_steady (pool : Decimals) (protocol : ProtocolName) (nft : Bool) :
    Steady state (account state event pool protocol nft) := by
  unfold account
  extract_lets effect applied
  have claimed : Steady state (updateClaimState applied event effect, []) :=
    ⟨updateClaimState_held applied event effect, rfl⟩
  have closed := claimed.trans
    (closeEpisode_steady (updateClaimState applied event effect) event protocol)
  have row (last : Position) (effect : EffectRow) (spot : Spot) (id : EventId) (time : Int) :
      Steady last ({ last with lastSpot := spot, lastId := id, lastTimestamp := time },
        [.effect effect]) :=
    ⟨rfl, rfl⟩
  exact closed.trans (row _ _ _ _ _)

theorem readLiquidity_held :
    heldOf (readLiquidity state event) = heldOf state := by
  unfold readLiquidity
  split
  · rfl
  · split
    · rfl
    · rfl

theorem completes_fair (spot : Spot) (state known : Position) (observed active : Option Ownership)
    (steady : heldOf known = heldOf state) (same : active = state.activeOwnership)
    (runs : ∀ interval ∈ observed, active = some interval) :
    Fair spot (heldOf state)
        ⟨known.owner, (observed.map Ownership.completed).or active, known.ownershipOrdinal⟩
        (intervalsOf ((observed.map Ownership.completed).toList.map .ownership)) ∧
      holderOf ⟨known.owner, (observed.map Ownership.completed).or active,
        known.ownershipOrdinal⟩ = holderOf (heldOf state) := by
  have owner : known.owner = state.owner := congrArg Held.owner steady
  have ordinal : known.ownershipOrdinal = state.ownershipOrdinal := congrArg Held.ordinal steady
  rw [owner, ordinal]
  cases observed with
  | none =>
    rw [Option.map_none, Option.none_or, same]
    exact ⟨.keep _, rfl⟩
  | some interval =>
    have running := runs interval rfl
    rw [same] at running
    refine ⟨.completes (heldOf state) interval running, ?_⟩
    unfold holderOf heldOf
    rw [running]
    rfl

theorem establish_fair :
    Fair event.spot (heldOf state) (heldOf (establish state event).1)
        (intervalsOf (establish state event).2) ∧
      holderOf (heldOf (establish state event).1) = holderOf (heldOf state) := by
  have read := readLiquidity_held state event
  have active : (readLiquidity state event).activeOwnership = state.activeOwnership :=
    congrArg Held.active read
  have runs : ∀ interval ∈ (readLiquidity state event).activeOwnership.filter
      (fun ownership => ownership.acquiredBy = .observed),
      (readLiquidity state event).activeOwnership = some interval :=
    fun interval observed => (Option.filter_eq_some_iff.mp observed).1
  unfold establish
  dsimp only
  split
  · split
    · split
      · exact completes_fair event.spot state (readLiquidity state event) _ _ read active runs
      · exact completes_fair event.spot state (readLiquidity state event) _ _ read active runs
    · split
      · exact completes_fair event.spot state (readLiquidity state event) _ _ read active runs
      · exact completes_fair event.spot state (readLiquidity state event) _ _ read active runs
  · rw [read]
    exact ⟨.keep _, rfl⟩

theorem next_unseen (plain : transfers event = false) (unseen : event.owner = none) :
    holder.next event = holder := by
  unfold Holder.next
  rw [plain, unseen]
  cases holder.owner with
  | none => rfl
  | some owner => rfl

theorem next_known (plain : transfers event = false) (owner : Address)
    (known : holder.owner = some owner) : holder.next event = holder := by
  unfold Holder.next
  rw [plain, known]
  rfl

theorem next_shown (plain : transfers event = false) (owner : Address)
    (unknown : holder.owner = none) (shown : event.owner = some owner) :
    holder.next event = ⟨some owner, event.data.verifiedMintAfter⟩ := by
  unfold Holder.next
  rw [plain, unknown, shown]
  rfl

theorem Linked.inactive {held : Held} (linked : Linked held) (ownerless : held.owner = none) :
    held.active = none := by
  rw [linked] at ownerless
  exact Option.map_eq_none_iff.mp ownerless

theorem updateIdentity_fair (linked : Linked (heldOf state)) (plain : transfers event = false) :
    Fair event.spot (heldOf state) (heldOf (updateIdentity state event).1)
        (intervalsOf (updateIdentity state event).2) ∧
      holderOf (heldOf (updateIdentity state event).1) =
        (holderOf (heldOf state)).next event := by
  unfold updateIdentity
  cases shown : event.owner with
  | none =>
    rw [next_unseen _ event plain shown]
    exact ⟨.keep _, rfl⟩
  | some owner =>
    cases known : state.owner with
    | some current =>
      have whole : heldOf state =
          ⟨some current, state.activeOwnership, state.ownershipOrdinal⟩ := by
        unfold heldOf
        rw [known]
      rw [next_known _ event plain current known, whole]
      dsimp only
      split
      · exact ⟨.keep _, rfl⟩
      · exact ⟨.keep _, rfl⟩
    | none =>
      have inactive : state.activeOwnership = none := linked.inactive known
      have minted : decide ((if event.data.verifiedMintAfter then Acquired.mint
          else .observed) = .mint) = event.data.verifiedMintAfter := by
        cases event.data.verifiedMintAfter with
        | true => rfl
        | false => rfl
      rw [next_shown _ event plain owner known shown, inactive]
      constructor
      · exact .opening rfl rfl inactive ⟨rfl, rfl, rfl⟩
      · exact congrArg (Holder.mk (some owner)) minted

variable (target : Address)

theorem acquire_begins (regular : Bool) (named : state.owner = some target) :
    ∃ interval, Begins event.spot (heldOf state) interval ∧
      heldOf (acquire ids state event target regular).1 = (heldOf state).begin interval ∧
      intervalsOf (acquire ids state event target regular).2 = [interval] ∧
      holderOf ((heldOf state).begin interval) = ⟨some target, fromZero event⟩ := by
  have minted : decide ((if fromZero event then Acquired.mint else .transfer) = .mint) =
      fromZero event := by
    cases fromZero event with
    | true => rfl
    | false => rfl
  unfold acquire
  extract_lets sourceZero interval owned
  have held : heldOf owned = (heldOf state).begin interval := by
    change Held.mk state.owner _ _ = _
    rw [named]
    rfl
  refine ⟨interval, ⟨rfl, rfl, rfl⟩, ?_, ?_, ?_⟩
  · split
    · exact held
    · exact held
  · split
    · rfl
    · rfl
  · exact congrArg (Holder.mk (some target)) minted

theorem endOwnership_ends
    (leaves : transferTarget event ≠ state.owner ∨ transferTarget event = none) :
    (endOwnership state event).1.activeOwnership = none ∧
      (endOwnership state event).1.ownershipOrdinal = state.ownershipOrdinal ∧
      ((state.activeOwnership = none ∧ intervalsOf (endOwnership state event).2 = []) ∨
        ∃ interval time complete, state.activeOwnership = some interval ∧
          intervalsOf (endOwnership state event).2 =
            [{ interval with finish := some (event.spot, time), complete := complete }]) := by
  unfold endOwnership
  cases active : state.activeOwnership with
  | none => exact ⟨active, rfl, Or.inl ⟨rfl, rfl⟩⟩
  | some interval =>
    dsimp only
    rw [if_pos leaves]
    exact ⟨rfl, rfl, Or.inr ⟨interval, _, _, rfl, rfl⟩⟩

theorem endOwnership_stays (stays : transferTarget event = state.owner)
    (present : transferTarget event ≠ none) :
    endOwnership state event = (state, []) := by
  unfold endOwnership
  split
  · rw [if_neg]
    rintro (differs | absent)
    · exact differs stays
    · exact present absent
  · rfl

theorem reopens_stays (plain : transfers event = true) (named : transferTarget event = some target)
    (stays : holder.owner = some target) : reopens holder event =
      (!(fromZero event && holder.minted) && decide (transferSource event ≠ holder.owner)) := by
  unfold reopens
  rw [plain, named, stays]
  simp

theorem next_transfer (plain : transfers event = true) (named : transferTarget event = some target)
    :
    holder.next event = if some target = holder.owner ∧ ((fromZero event ∧ holder.minted) ∨
      transferSource event = holder.owner) then holder else ⟨some target, fromZero event⟩ := by
  unfold Holder.next
  rw [plain, named]
  rfl

theorem processTransfer_stays (linked : Linked (heldOf state)) (plain : transfers event = true)
    (takes : transferTarget event = some target) (stays : state.owner = some target) :
    (reopens (holderOf (heldOf state)) event = false → Fair event.spot (heldOf state)
        (heldOf (processTransfer ids state event).1)
        (intervalsOf (processTransfer ids state event).2)) ∧
      (reopens (holderOf (heldOf state)) event = true → Reopens event.spot (heldOf state)
        (heldOf (processTransfer ids state event).1)
        (intervalsOf (processTransfer ids state event).2)) ∧
      holderOf (heldOf (processTransfer ids state event).1) =
        (holderOf (heldOf state)).next event := by
  have same : transferTarget event = state.owner := takes.trans stays.symm
  have unended := endOwnership_stays state event same (by rw [takes]; exact Option.some_ne_none _)
  have closed := endEpisode_steady state event
  obtain ⟨old, active⟩ : ∃ old, state.activeOwnership = some old := by
    cases running : state.activeOwnership with
    | some old => exact ⟨old, rfl⟩
    | none =>
      have owner : state.owner = state.activeOwnership.map Ownership.owner := linked
      rw [running, stays] at owner
      cases owner
  have wide := reopens_stays (holderOf (heldOf state)) event target plain takes stays
  have next := next_transfer (holderOf (heldOf state)) event target plain takes
  change reopens _ event = (!(fromZero event && state.activeOwnership.any _) &&
    decide (transferSource event ≠ state.owner)) at wide
  have listed : some target = state.owner := stays.symm
  rw [wide, next]
  unfold processTransfer
  rw [unended]
  dsimp -zeta only
  rcases closing : endEpisode state event with ⟨left, finished⟩
  rw [closing] at closed
  obtain ⟨held, unsaved⟩ := closed
  rw [takes]
  extract_lets moved
  dsimp -zeta only
  extract_lets named
  have kept : heldOf named = heldOf state := by
    rw [Held.mk.injEq] at held ⊢
    exact ⟨listed, held.2⟩
  have still (after : Position) (steady : heldOf after = heldOf state) :
      Fair event.spot (heldOf state) (heldOf after) (intervalsOf ([] ++ finished)) := by
    rw [steady, List.nil_append, unsaved]
    exact .keep _
  split
  · next mint =>
      have zero : fromZero event = true := decide_eq_true mint.1
      have minted := mint.2.2
      rw [if_pos ⟨listed, Or.inl ⟨zero, minted⟩⟩, zero, minted]
      refine ⟨fun _ => still _ kept, ?_, congrArg holderOf kept⟩
      intro opens
      cases opens
  · next unminted =>
      split
      · next own =>
          rw [if_pos ⟨listed, Or.inr own.1⟩, own.1]
          refine ⟨fun _ => still _ kept, ?_, congrArg holderOf kept⟩
          intro opens
          simp at opens
      · next other =>
          have source : transferSource event ≠ state.owner := fun own => other ⟨own, listed⟩
          have fresh : ¬(fromZero event = true ∧ state.activeOwnership.any
              (fun interval => decide (interval.acquiredBy = .mint)) = true) :=
            fun mint => unminted ⟨of_decide_eq_true mint.1, listed, mint.2⟩
          obtain ⟨interval, begins, held, saved, holder⟩ := acquire_begins ids named event target
            (regularTransfer state event) rfl
          rw [kept] at begins held holder
          rw [if_neg fun both => both.2.elim fresh source]
          refine ⟨?_, ?_, ?_⟩
          · intro closes
            simp [fresh, source] at closes
          · intro _
            refine ⟨old, interval, active, begins, held, ?_⟩
            rw [intervalsOf_append, List.nil_append, unsaved, saved]
            rfl
          · exact (congrArg holderOf held).trans holder

theorem processTransfer_leaves (linked : Linked (heldOf state)) (plain : transfers event = true)
    (leaves : transferTarget event ≠ state.owner ∨ transferTarget event = none) :
    Fair event.spot (heldOf state) (heldOf (processTransfer ids state event).1)
        (intervalsOf (processTransfer ids state event).2) ∧
      holderOf (heldOf (processTransfer ids state event).1) =
        (holderOf (heldOf state)).next event := by
  have ends := endOwnership_ends state event leaves
  unfold processTransfer
  rcases disowning : endOwnership state event with ⟨disowned, ended⟩
  rw [disowning] at ends
  dsimp -zeta only at ends ⊢
  have closed := endEpisode_steady disowned event
  rcases closing : endEpisode disowned event with ⟨left, finished⟩
  rw [closing] at closed
  obtain ⟨held, unsaved⟩ := closed
  obtain ⟨inactive, ordinal, ended_or⟩ := ends
  have gone : left.activeOwnership = none := (congrArg Held.active held).trans inactive
  have numbered : left.ownershipOrdinal = state.ownershipOrdinal :=
    (congrArg Held.ordinal held).trans ordinal
  -- the interval that ran has ended, whoever holds the position now
  have ending : Fair event.spot (heldOf state) ⟨none, none, state.ownershipOrdinal⟩
      (intervalsOf (ended ++ finished)) := by
    rw [intervalsOf_append, unsaved, List.append_nil]
    rcases ended_or with ⟨idle, nothing⟩ | ⟨interval, time, complete, active, one⟩
    · have same : heldOf state = ⟨none, none, state.ownershipOrdinal⟩ := by
        have owner : state.owner = state.activeOwnership.map Ownership.owner := linked
        rw [idle] at owner
        unfold heldOf
        rw [idle, owner]
        rfl
      rw [nothing, same]
      exact .keep _
    · rw [one]
      exact .ends (heldOf state) interval time complete active
  extract_lets moved
  have unheld : heldOf moved = ⟨transferTarget event, none, state.ownershipOrdinal⟩ := by
    rw [Held.mk.injEq]
    exact ⟨rfl, gone, numbered⟩
  cases takes : transferTarget event with
  | none =>
    have nobody : (holderOf (heldOf state)).next event = .nobody := by
      unfold Holder.next
      rw [plain, takes]
      rfl
    rw [takes] at unheld
    have rest (after : Position) (same : heldOf after = heldOf moved) :
        Fair event.spot (heldOf state) (heldOf after) (intervalsOf (ended ++ finished)) ∧
          holderOf (heldOf after) = (holderOf (heldOf state)).next event := by
      rw [same, unheld, nobody]
      exact ⟨ending, rfl⟩
    dsimp only
    split
    · exact rest _ rfl
    · exact rest _ rfl
  | some target =>
    have other : some target ≠ state.owner := by
      rcases leaves with differs | absent
      · rw [takes] at differs
        exact differs
      · rw [takes] at absent
        cases absent
    have next := next_transfer (holderOf (heldOf state)) event target plain takes
    rw [if_neg fun both => other both.1] at next
    rw [takes] at unheld
    dsimp -zeta only
    extract_lets named
    have named_held : heldOf named = ⟨some target, none, state.ownershipOrdinal⟩ := unheld
    rw [if_neg fun mint => other mint.2.1, if_neg fun own => other own.2]
    obtain ⟨interval, begins, held, saved, holder⟩ := acquire_begins ids named event target
      (regularTransfer state event) (congrArg Held.owner named_held)
    rw [named_held] at begins held holder
    rw [intervalsOf_append, saved, held, next]
    refine ⟨.trans _ _ _ _ _ ending (.begins ⟨none, none, state.ownershipOrdinal⟩ interval rfl
      ⟨begins.ordinal, begins.start, begins.running⟩), holder⟩

theorem processTransfer_turns (linked : Linked (heldOf state)) (plain : transfers event = true) :
    (reopens (holderOf (heldOf state)) event = false → Fair event.spot (heldOf state)
        (heldOf (processTransfer ids state event).1)
        (intervalsOf (processTransfer ids state event).2)) ∧
      (reopens (holderOf (heldOf state)) event = true → Reopens event.spot (heldOf state)
        (heldOf (processTransfer ids state event).1)
        (intervalsOf (processTransfer ids state event).2)) ∧
      holderOf (heldOf (processTransfer ids state event).1) =
        (holderOf (heldOf state)).next event := by
  by_cases leaves : transferTarget event ≠ state.owner ∨ transferTarget event = none
  · have turn := processTransfer_leaves ids state event linked plain leaves
    refine ⟨fun _ => turn.1, ?_, turn.2⟩
    intro opens
    simp only [reopens, Bool.and_eq_true, decide_eq_true_eq] at opens
    obtain ⟨⟨⟨⟨-, present⟩, same⟩, -⟩, -⟩ := opens
    rcases leaves with differs | absent
    · exact absurd same differs
    · rw [absent] at present
      cases present
  · rw [not_or, not_not] at leaves
    obtain ⟨target, takes⟩ := Option.ne_none_iff_exists'.mp leaves.2
    exact processTransfer_stays ids state event target linked plain takes
      (leaves.1.symm.trans takes)

theorem isTransfer_transfers (protocol : event.protocol.isSome) :
    isTransfer state event = transfers event := by
  obtain ⟨name, named⟩ := Option.isSome_iff_exists.mp protocol
  unfold isTransfer transfers
  rw [named, Option.some_or, Option.getD_some]
  simp

theorem rest_fair (protocol : ProtocolName) (nft : Bool) (identified : Position) (event : Event)
    (named : List Saved) :
    let established := establish identified event
    let entered := enterEpisode ids identified established.1 event
    let accounted := account entered.1 event pool protocol nft
    ∃ later, intervalsOf (named ++ established.2 ++ entered.2 ++ accounted.2) =
        intervalsOf named ++ later ∧
      Fair event.spot (heldOf identified) (heldOf accounted.1) later ∧
      holderOf (heldOf accounted.1) = holderOf (heldOf identified) := by
  intro established entered accounted
  have completes := establish_fair identified event
  have enters : Steady established.1 entered :=
    enterEpisode_steady ids identified established.1 event
  have accounts : Steady entered.1 accounted := account_steady entered.1 event pool protocol nft
  have held : heldOf accounted.1 = heldOf established.1 := accounts.1.trans enters.1
  refine ⟨intervalsOf established.2, ?_, ?_, ?_⟩
  · rw [intervalsOf_append, intervalsOf_append, intervalsOf_append, enters.2, accounts.2,
      List.append_nil, List.append_nil]
  · rw [held]
    exact completes.1
  · rw [held]
    exact completes.2

theorem processEvent_turns (linked : Linked (heldOf state)) (protocol : event.protocol.isSome) :
    (reopens (holderOf (heldOf state)) event = false → Fair event.spot (heldOf state)
        (heldOf (processEvent ids pool state event).1)
        (intervalsOf (processEvent ids pool state event).2)) ∧
      (reopens (holderOf (heldOf state)) event = true → ∃ middle first second,
        Reopens event.spot (heldOf state) middle first ∧
        Fair event.spot middle (heldOf (processEvent ids pool state event).1) second ∧
        intervalsOf (processEvent ids pool state event).2 = first ++ second) ∧
      holderOf (heldOf (processEvent ids pool state event).1) =
        (holderOf (heldOf state)).next event := by
  have kind := isTransfer_transfers state event protocol
  cases plain : transfers event with
  | false =>
    have turn := updateIdentity_fair (readColumns state event) event linked plain
    have unopened : reopens (holderOf (heldOf state)) event = false := by
      unfold reopens
      rw [plain]
      rfl
    obtain ⟨later, listed, rest, holder⟩ := rest_fair ids pool
      ((event.protocol.or state.protocol).getD .unknown) (isTransfer state event)
      (updateIdentity (readColumns state event) event).1 event
      (updateIdentity (readColumns state event) event).2
    rw [unopened]
    unfold processEvent enter
    rw [kind, plain] at listed rest holder ⊢
    dsimp only at listed rest holder ⊢
    rw [if_neg Bool.false_ne_true, listed]
    refine ⟨fun _ => .trans _ _ _ _ _ turn.1 rest, ?_, holder.trans turn.2⟩
    intro opens
    cases opens
  | true =>
    obtain ⟨later, listed, rest, holder⟩ := rest_fair ids pool
      ((event.protocol.or state.protocol).getD .unknown) (isTransfer state event)
      (processTransfer ids (readColumns state event) event).1 event
      (processTransfer ids (readColumns state event) event).2
    have turns := processTransfer_turns ids (readColumns state event) event linked plain
    unfold processEvent enter
    rw [kind, plain] at listed rest holder ⊢
    dsimp only at listed rest holder ⊢
    rw [if_pos rfl, listed]
    refine ⟨?_, ?_, holder.trans turns.2.2⟩
    · intro closes
      exact .trans _ _ _ _ _ (turns.1 closes) rest
    · intro opens
      exact ⟨_, _, later, turns.2.1 opens, rest, rfl⟩

def record (book : Book) (interval : Ownership) : Book :=
  Function.update book interval.ordinal (some interval)

def recordAll (book : Book) (intervals : List Ownership) : Book := intervals.foldl record book

theorem recordAll_append (first second : List Ownership) :
    recordAll book (first ++ second) = recordAll (recordAll book first) second :=
  List.foldl_append

theorem record_cases (ordinal : Int) (found : Ownership)
    (there : record book interval ordinal = some found) :
    (ordinal = interval.ordinal ∧ found = interval) ∨
      (ordinal ≠ interval.ordinal ∧ book ordinal = some found) := by
  unfold record at there
  rw [Function.update_apply] at there
  split at there
  · next here => exact Or.inl ⟨here, (Option.some.inj there).symm⟩
  · next other => exact Or.inr ⟨other, there⟩

theorem record_other (ordinal : Int) (other : ordinal ≠ interval.ordinal) :
    record book interval ordinal = book ordinal :=
  Function.update_of_ne other _ _

theorem record_here :
    record book interval interval.ordinal = some interval :=
  Function.update_self _ _ _

end

structure Recorded (book : Book) (held : Held) : Prop where
  linked : Linked held
  keyed : ∀ ordinal interval, book ordinal = some interval →
    interval.ordinal = ordinal ∧ ordinal ≤ held.ordinal
  running : ∀ interval ∈ held.active,
    interval.finish = none ∧ interval.ordinal = held.ordinal ∧
      book interval.ordinal = some interval

variable {spot now : Spot} {book : Book} {held after : Held} {intervals : List Ownership}

theorem Recorded.begin (recorded : Recorded book held) (interval : Ownership)
    (begins : Begins spot held interval) :
    Recorded (record book interval) (held.begin interval) where
  linked := rfl
  keyed := by
    intro ordinal found there
    rcases record_cases book interval ordinal found there with ⟨rfl, rfl⟩ | ⟨-, before⟩
    · exact ⟨rfl, le_of_eq begins.ordinal⟩
    · obtain ⟨same, bound⟩ := recorded.keyed ordinal found before
      exact ⟨same, le_of_lt (Int.lt_add_one_of_le bound)⟩
  running := by
    intro running here
    cases here
    exact ⟨begins.running, begins.ordinal, record_here book interval⟩

theorem Fair.recorded (turn : Fair spot held after intervals) (recorded : Recorded book held) :
    Recorded (recordAll book intervals) after := by
  induction turn generalizing book with
  | keep held => exact recorded
  | completes held interval active =>
    obtain ⟨open_, last, there⟩ := recorded.running interval active
    refine ⟨?_, ?_, ?_⟩
    · have owner := recorded.linked
      unfold Linked at owner ⊢
      rw [active] at owner
      exact owner
    · intro ordinal found here
      rcases record_cases book (Ownership.completed interval) ordinal found here with
        ⟨rfl, rfl⟩ | ⟨-, before⟩
      · exact ⟨rfl, le_of_eq last⟩
      · exact recorded.keyed ordinal found before
    · intro running here
      cases here
      exact ⟨open_, last, record_here book _⟩
  | ends held interval time complete active =>
    obtain ⟨-, last, -⟩ := recorded.running interval active
    refine ⟨rfl, ?_, ?_⟩
    · intro ordinal found here
      rcases record_cases book _ ordinal found here with ⟨rfl, rfl⟩ | ⟨-, before⟩
      · exact ⟨rfl, le_of_eq last⟩
      · exact recorded.keyed ordinal found before
    · intro running here
      cases here
  | begins held interval inactive new => exact recorded.begin interval new
  | trans held middle after first second early late first_ih second_ih =>
    rw [recordAll_append]
    exact second_ih (first_ih recorded)

structure Orderly (book : Book) (held : Held) (now : Spot) : Prop where
  recorded : Recorded book held
  past : ∀ ordinal interval, book ordinal = some interval →
    place interval.startSpot ≤ place now
  closed : ∀ ordinal interval, book ordinal = some interval → held.active = some interval ∨
    ∃ finish, interval.finish = some finish ∧ place finish.1 ≤ place now
  apart : ∀ ordinal other first second, ordinal < other → book ordinal = some first →
    book other = some second →
    ∃ finish, first.finish = some finish ∧ place finish.1 ≤ place second.startSpot

theorem Orderly.later (orderly : Orderly book held now) (later : place now ≤ place spot) :
    Orderly book held spot where
  recorded := orderly.recorded
  past ordinal interval there := le_trans (orderly.past ordinal interval there) later
  closed := by
    intro ordinal interval there
    rcases orderly.closed ordinal interval there with active | ⟨finish, ended, before⟩
    · exact Or.inl active
    · exact Or.inr ⟨finish, ended, le_trans before later⟩
  apart := orderly.apart

theorem Orderly.replace (orderly : Orderly book held now) (old interval : Ownership)
    (active : held.active = some old) (same : interval.ordinal = old.ordinal)
    (start : interval.startSpot = old.startSpot) :
    (∀ ordinal found, record book interval ordinal = some found →
      place found.startSpot ≤ place now) ∧
    (∀ ordinal found, record book interval ordinal = some found → found = interval ∨
      ∃ finish, found.finish = some finish ∧ place finish.1 ≤ place now) ∧
    ∀ ordinal other first second, ordinal < other → record book interval ordinal = some first →
      record book interval other = some second →
      ∃ finish, first.finish = some finish ∧ place finish.1 ≤ place second.startSpot := by
  obtain ⟨-, last, there⟩ := orderly.recorded.running old active
  refine ⟨?_, ?_, ?_⟩
  · intro ordinal found here
    rcases record_cases book interval ordinal found here with ⟨-, rfl⟩ | ⟨-, before⟩
    · rw [start]
      exact orderly.past old.ordinal old there
    · exact orderly.past ordinal found before
  · intro ordinal found here
    rcases record_cases book interval ordinal found here with ⟨-, rfl⟩ | ⟨other, before⟩
    · exact Or.inl rfl
    · rcases orderly.closed ordinal found before with running | ended
      · rw [active] at running
        cases running
        exact absurd (orderly.recorded.keyed ordinal old before).1 (by rw [← same]; exact other.symm)
      · exact Or.inr ended
  · intro ordinal other first second less here later
    rcases record_cases book interval ordinal first here with ⟨rfl, rfl⟩ | ⟨-, before⟩
    · -- no interval is after the one that runs
      rcases record_cases book first other second later with ⟨rfl, -⟩ | ⟨-, after⟩
      · exact absurd less (lt_irrefl _)
      · have bound := (orderly.recorded.keyed other second after).2
        rw [same, last] at less
        exact absurd less (not_lt.mpr bound)
    · rcases record_cases book interval other second later with ⟨rfl, rfl⟩ | ⟨-, after⟩
      · rw [start]
        rw [same] at less
        exact orderly.apart ordinal old.ordinal first old less before there
      · exact orderly.apart ordinal other first second less before after

theorem Fair.orderly (turn : Fair spot held after intervals) (now : Spot)
    (orderly : Orderly book held now) (later : place now ≤ place spot) :
    Orderly (recordAll book intervals) after spot := by
  induction turn generalizing book now with
  | keep held => exact orderly.later later
  | completes held interval active =>
    have turn : Fair spot held _ _ := .completes held interval active
    have recorded := turn.recorded orderly.recorded
    obtain ⟨past, closed, apart⟩ := (orderly.later later).replace interval
      (Ownership.completed interval) active rfl rfl
    refine ⟨recorded, past, ?_, apart⟩
    intro ordinal found there
    rcases closed ordinal found there with rfl | ended
    · exact Or.inl rfl
    · exact Or.inr ended
  | ends held interval time complete active =>
    have turn : Fair spot held _ _ := .ends held interval time complete active
    have recorded := turn.recorded orderly.recorded
    obtain ⟨past, closed, apart⟩ := (orderly.later later).replace interval
      { interval with finish := some (spot, time), complete := complete } active rfl rfl
    refine ⟨recorded, past, ?_, apart⟩
    intro ordinal found there
    rcases closed ordinal found there with rfl | ended
    · exact Or.inr ⟨(spot, time), rfl, le_refl _⟩
    · exact Or.inr ended
  | begins held interval inactive new =>
    have before := orderly.later later
    refine ⟨before.recorded.begin interval new, ?_, ?_, ?_⟩
    · intro ordinal found there
      rcases record_cases book interval ordinal found there with ⟨-, rfl⟩ | ⟨-, old⟩
      · rw [new.start]
      · exact before.past ordinal found old
    · intro ordinal found there
      rcases record_cases book interval ordinal found there with ⟨-, rfl⟩ | ⟨-, old⟩
      · exact Or.inl rfl
      · rcases before.closed ordinal found old with running | ended
        · rw [inactive] at running
          cases running
        · exact Or.inr ended
    · intro ordinal other first second less here there
      rcases record_cases book interval other second there with ⟨rfl, rfl⟩ | ⟨-, old⟩
      · rcases record_cases book second ordinal first here with ⟨rfl, -⟩ | ⟨-, earlier⟩
        · exact absurd less (lt_irrefl _)
        · rcases before.closed ordinal first earlier with running | ⟨finish, ended, past⟩
          · rw [inactive] at running
            cases running
          · rw [new.start]
            exact ⟨finish, ended, past⟩
      · have bound := (before.recorded.keyed other second old).2
        rcases record_cases book interval ordinal first here with ⟨rfl, -⟩ | ⟨-, earlier⟩
        · rw [new.ordinal] at less
          exact absurd less (not_lt.mpr (le_of_lt (Int.lt_add_one_of_le bound)))
        · exact before.apart ordinal other first second less earlier old
  | trans held middle after first second early late first_ih second_ih =>
    rw [recordAll_append]
    exact second_ih spot (first_ih now orderly later) (le_refl _)

def Stray (book : Book) (held : Held) : Prop :=
  ∃ ordinal interval, book ordinal = some interval ∧ interval.finish = none ∧
    ordinal ≤ held.ordinal ∧ ∀ running ∈ held.active, running.ordinal ≠ ordinal

theorem Stray.begin (stray : Stray book held) (interval : Ownership)
    (begins : Begins spot held interval) : Stray (record book interval) (held.begin interval) := by
  obtain ⟨ordinal, left, there, unended, bound, -⟩ := stray
  have other : ordinal ≠ interval.ordinal := by
    rw [begins.ordinal]
    exact ne_of_lt (Int.lt_add_one_of_le bound)
  refine ⟨ordinal, left, ?_, unended, le_of_lt (Int.lt_add_one_of_le bound), ?_⟩
  · rw [record_other book interval ordinal other]
    exact there
  · intro running here
    cases here
    exact other.symm

theorem Fair.stray (turn : Fair spot held after intervals) (stray : Stray book held) :
    Stray (recordAll book intervals) after := by
  induction turn generalizing book with
  | keep held => exact stray
  | completes held interval active =>
    obtain ⟨ordinal, left, there, unended, bound, apart⟩ := stray
    have other := apart interval active
    refine ⟨ordinal, left, ?_, unended, bound, ?_⟩
    · exact (record_other book (Ownership.completed interval) ordinal other.symm).trans there
    · intro running here
      cases here
      exact other
  | ends held interval time complete active =>
    obtain ⟨ordinal, left, there, unended, bound, apart⟩ := stray
    refine ⟨ordinal, left, ?_, unended, bound, ?_⟩
    · have other := (apart interval active).symm
      exact (record_other book { interval with
        finish := some (spot, time), complete := complete } ordinal other).trans there
    · intro running here
      cases here
  | begins held interval inactive new => exact stray.begin interval new
  | trans held middle after first second early late first_ih second_ih =>
    rw [recordAll_append]
    exact second_ih (first_ih stray)

theorem Reopens.recorded (turn : Reopens spot held after intervals)
    (recorded : Recorded book held) : Recorded (recordAll book intervals) after := by
  obtain ⟨old, interval, -, begins, rfl, rfl⟩ := turn
  exact recorded.begin interval begins

theorem Reopens.stray (turn : Reopens spot held after intervals)
    (recorded : Recorded book held) : Stray (recordAll book intervals) after := by
  obtain ⟨old, interval, active, begins, rfl, rfl⟩ := turn
  obtain ⟨unended, last, there⟩ := recorded.running old active
  have other : old.ordinal ≠ interval.ordinal := by
    rw [begins.ordinal, last]
    exact ne_of_lt (Int.lt_succ _)
  refine ⟨old.ordinal, old, ?_, unended, ?_, ?_⟩
  · exact (record_other book interval old.ordinal other).trans there
  · rw [last]
    exact le_of_lt (Int.lt_succ _)
  · intro running here
    cases here
    exact other.symm

variable (ids : Ids) (pools : PoolId → Decimals) (state : Position)

theorem processEvents_intervals (event : Event) (rest : List Event) (book : Book) :
    recordAll book (intervalsOf (processEvents ids pools state (event :: rest)).2) =
      recordAll (recordAll book
        (intervalsOf (processEvent ids (poolOf pools state event) state event).2))
        (intervalsOf (processEvents ids pools
          (processEvent ids (poolOf pools state event) state event).1 rest).2) := by
  rw [← recordAll_append, ← intervalsOf_append]
  rfl

variable (events : List Event)

theorem processEvents_orderly (book : Book) (now : Spot) (orderly : Orderly book (heldOf state) now)
    (protocols : ∀ event ∈ events, event.protocol.isSome)
    (sorted : (events.map Event.spot).Pairwise fun spot later => place spot ≤ place later)
    (past : ∀ event ∈ events, place now ≤ place event.spot)
    (fair : regular (holderOf (heldOf state)) events = true) :
    ∃ last, Orderly (recordAll book (intervalsOf (processEvents ids pools state events).2))
      (heldOf (processEvents ids pools state events).1) last := by
  induction events generalizing state book now with
  | nil => exact ⟨now, orderly⟩
  | cons event rest ih =>
    obtain ⟨closes, fair⟩ := Bool.and_eq_true_iff.mp fair
    obtain ⟨before, sorted⟩ := List.pairwise_cons.mp sorted
    obtain ⟨turn, -, holder⟩ := processEvent_turns ids (poolOf pools state event) state event
      orderly.recorded.linked (protocols event List.mem_cons_self)
    have next := (turn (by rwa [Bool.not_eq_true'] at closes)).orderly now orderly
      (past event List.mem_cons_self)
    rw [processEvents_intervals]
    apply ih _ _ event.spot next
    · exact fun later member => protocols later (List.mem_cons_of_mem event member)
    · exact sorted
    · exact fun later member => before later.spot (List.mem_map_of_mem member)
    · rw [holder]
      exact fair

theorem processEvents_stray (book : Book) (recorded : Recorded book (heldOf state))
    (protocols : ∀ event ∈ events, event.protocol.isSome)
    (strays : Stray book (heldOf state) ∨ regular (holderOf (heldOf state)) events = false) :
    Recorded (recordAll book (intervalsOf (processEvents ids pools state events).2))
        (heldOf (processEvents ids pools state events).1) ∧
      Stray (recordAll book (intervalsOf (processEvents ids pools state events).2))
        (heldOf (processEvents ids pools state events).1) := by
  induction events generalizing state book with
  | nil =>
    rcases strays with stray | irregular
    · exact ⟨recorded, stray⟩
    · cases irregular
  | cons event rest ih =>
    obtain ⟨fair, reopen, holder⟩ := processEvent_turns ids (poolOf pools state event) state event
      recorded.linked (protocols event List.mem_cons_self)
    have others : ∀ later ∈ rest, later.protocol.isSome :=
      fun later member => protocols later (List.mem_cons_of_mem event member)
    rw [processEvents_intervals]
    cases opens : reopens (holderOf (heldOf state)) event with
    | true =>
      obtain ⟨middle, first, second, turn, later, split⟩ := reopen opens
      rw [split, recordAll_append]
      apply ih _ _ (later.recorded (turn.recorded recorded)) others
      exact Or.inl (later.stray (turn.stray recorded))
    | false =>
      have turn := fair opens
      apply ih _ _ (turn.recorded recorded) others
      rcases strays with stray | irregular
      · exact Or.inl (turn.stray stray)
      · right
        unfold regular at irregular
        rw [opens, Bool.not_false, Bool.true_and] at irregular
        rw [holder]
        exact irregular

theorem Orderly.tidy (orderly : Orderly book held now) : Tidy book held.owner := by
  have ahead : ∀ ordinal other first second, ordinal < other → book ordinal = some first →
      book other = some second → ∀ spot, ¬(Covers first spot ∧ Covers second spot) := by
    rintro ordinal other first second less here there spot ⟨early, late⟩
    obtain ⟨finish, ended, before⟩ := orderly.apart ordinal other first second less here there
    have within := early.2 finish ended
    exact absurd (lt_of_lt_of_le within (le_trans before late.1)) (lt_irrefl _)
  have runs : ∀ ordinal interval, book ordinal = some interval → interval.finish = none →
      held.active = some interval := by
    intro ordinal interval there unended
    rcases orderly.closed ordinal interval there with active | ⟨finish, ended, -⟩
    · exact active
    · rw [unended] at ended
      cases ended
  have owner := orderly.recorded.linked
  refine ⟨?_, ?_, ?_⟩
  · intro ordinal other first second differ here there spot both
    rcases lt_or_gt_of_ne differ with less | more
    · exact ahead ordinal other first second less here there spot both
    · exact ahead other ordinal second first more there here spot both.symm
  · intro ordinal other first second here there unended open_
    have same := (runs ordinal first here unended).symm.trans (runs other second there open_)
    rw [Option.some.injEq] at same
    rw [← (orderly.recorded.keyed ordinal first here).1,
      ← (orderly.recorded.keyed other second there).1, same]
  · intro address
    rw [owner]
    constructor
    · intro owned
      obtain ⟨interval, active, same⟩ := Option.map_eq_some_iff.mp owned
      obtain ⟨unended, -, there⟩ := orderly.recorded.running interval active
      exact ⟨interval.ordinal, interval, there, unended, same⟩
    · rintro ⟨ordinal, interval, there, unended, rfl⟩
      rw [runs ordinal interval there unended]
      rfl

theorem Stray.untidy (stray : Stray book held) (recorded : Recorded book held) :
    ¬Tidy book held.owner := by
  intro tidy
  obtain ⟨ordinal, left, there, unended, -, apart⟩ := stray
  have owned := (tidy.known left.owner).mpr ⟨ordinal, left, there, unended, rfl⟩
  rw [recorded.linked] at owned
  obtain ⟨running, active, -⟩ := Option.map_eq_some_iff.mp owned
  obtain ⟨open_, -, here⟩ := recorded.running running active
  exact apart running active
    (tidy.single running.ordinal ordinal running left here there open_ unended)

theorem bookOf_replay (saved : List Saved) (rows : Rows) :
    bookOf (replay rows (saved.map written)) = recordAll (bookOf rows) (intervalsOf saved) := by
  induction saved generalizing rows with
  | nil => rfl
  | cons one rest ih =>
    change bookOf (replay (apply rows (written one)) (rest.map written)) = _
    rw [ih]
    cases one with
    | ownership interval =>
      have same : bookOf (apply rows (written (.ownership interval))) =
          record (bookOf rows) interval := by
        funext ordinal
        unfold bookOf record apply
        by_cases here : ordinal = interval.ordinal
        · rw [here]
          simp [written, intervalOf]
        · simp [written, here]
      rw [same]
      rfl
    | episode episode =>
      rfl
    | effect effect =>
      rfl

theorem place_order (event later : Event) (before : order event ≤ order later) :
    place event.spot ≤ place later.spot := by
  unfold order at before
  unfold place
  rw [Prod.Lex.toLex_le_toLex] at before ⊢
  rcases before with less | ⟨same, rest⟩
  · exact Or.inl less
  · rw [Prod.Lex.toLex_le_toLex] at rest
    refine Or.inr ⟨same, ?_⟩
    rw [Prod.Lex.toLex_le_toLex]
    rcases rest with less | ⟨same, rest⟩
    · exact Or.inl less
    · rw [Prod.Lex.toLex_le_toLex] at rest
      refine Or.inr ⟨same, ?_⟩
      rcases rest with less | ⟨same, -⟩
      · exact le_of_lt less
      · exact le_of_eq same

theorem derive_book : bookOf (desired (derive ids pools state events).2) =
      recordAll (fun _ => none)
        (intervalsOf (processEvents ids pools state (preparedEvents [] events)).2) := by
  have episodes (active : Option Episode) :
      intervalsOf (active.toList.map .episode) = [] := by
    cases active with
    | none => rfl
    | some episode => rfl
  unfold desired
  rw [bookOf_replay]
  change recordAll _ (intervalsOf ((processEvents ids pools state (preparedEvents [] events)).2 ++
    (processEvents ids pools state (preparedEvents [] events)).1.activeEpisode.toList.map
      .episode)) = _
  rw [intervalsOf_append, episodes, List.append_nil]
  rfl

theorem orderly_nobody (now : Spot) : Orderly (fun _ => none) ⟨none, none, 0⟩ now := by
  refine ⟨⟨rfl, ?_, ?_⟩, ?_, ?_, ?_⟩
  · intro ordinal interval there
    cases there
  · intro interval active
    cases active
  · intro ordinal interval there
    cases there
  · intro ordinal interval there
    cases there
  · intro ordinal other first second less there
    cases there

/-- After a derivation of any events in their order the intervals of the position are tidy if
and only if no transfer reopens an interval. -/
theorem derived_tidy_iff (identities : Identities) (pools : PoolId → Decimals) (key : String)
    (existing : Rows) (events : List Event) (ledger : Ledger)
    (protocols : ∀ event ∈ events, event.protocol.isSome)
    (derived : rebuildPosition identities pools key existing events = some ledger) :
    Tidy (bookOf ledger.rows) ledger.state.owner ↔
      regular .nobody (preparedEvents [] (ordered events)) = true := by
  have spots := preparedEvents_spots [] (ordered events)
  have named : ∀ event ∈ preparedEvents [] (ordered events), event.protocol.isSome := by
    intro event member
    obtain ⟨original, among, same⟩ := mem_preparedEvents [] (ordered events) event member
    rw [same]
    exact protocols original ((ordered_mem events original).mp among)
  have sorted : ((preparedEvents [] (ordered events)).map Event.spot).Pairwise
      fun spot later => place spot ≤ place later := by
    rw [spots, List.pairwise_map]
    have ordered_events : (ordered events).Pairwise fun event later => order event ≤ order later :=
      List.pairwise_insertionSort _ events
    exact ordered_events.imp fun {event later} before => place_order event later before
  unfold rebuildPosition at derived
  cases split : ordered events with
  | nil =>
    rw [split] at derived
    cases derived
  | cons first rest =>
    rw [split] at derived named sorted
    dsimp only at derived
    rw [flush_full] at derived
    cases derived
    dsimp only
    rw [derive_book]
    have begun : Orderly (fun _ => none) (heldOf (restored identities (newState key first)))
        first.spot := orderly_nobody first.spot
    change Tidy _ (heldOf (processEvents identities.ids pools
      (restored identities (newState key first)) (preparedEvents [] (first :: rest))).1).owner ↔ _
    constructor
    · intro tidy
      by_contra irregular
      rw [Bool.not_eq_true] at irregular
      obtain ⟨last, stray⟩ := processEvents_stray identities.ids pools
        (restored identities (newState key first)) (preparedEvents [] (first :: rest))
        (fun _ => none) begun.recorded named (Or.inr irregular)
      exact stray.untidy last tidy
    · intro fair
      have past : ∀ event ∈ preparedEvents [] (first :: rest),
          place first.spot ≤ place event.spot := by
        intro event member
        rcases List.mem_cons.mp member with rfl | inside
        · exact le_refl _
        · exact (List.pairwise_cons.mp sorted).1 event.spot (List.mem_map_of_mem inside)
      obtain ⟨last, orderly⟩ := processEvents_orderly identities.ids pools
        (restored identities (newState key first)) (preparedEvents [] (first :: rest))
        (fun _ => none) first.spot begun named sorted past fair
      exact orderly.tidy

/-! A deposit that shows its owner, and a transfer of the position. -/

def alice : Address := 0xa11ce

def bob : Address := 0xb0b

def carol : Address := 0xca201

def transferOf (source target : Address) : Event :=
  { plainEvent .transfer 2 0 0 0 with
    id := 2
    protocol := some .nft
    liquidityDelta := none
    owner := some target
    data := { plainData with address := fun name =>
      if name = "prior_owner" then some source
      else if name = "new_owner" then some target else none } }

def observedDeposit : Event := { plainEvent .add 1 7 5 5 with id := 1, owner := some alice }

theorem handed_derives : (rebuildPosition .none samplePools "position" (fun _ => none)
    [observedDeposit, transferOf alice bob]).isSome := by
  decide

def handedLedger : Ledger :=
  (rebuildPosition .none samplePools "position" (fun _ => none)
    [observedDeposit, transferOf alice bob]).get handed_derives

theorem derived_tidy_handed :
    Tidy (bookOf handedLedger.rows) handedLedger.state.owner ↔
      regular .nobody (preparedEvents [] (ordered [observedDeposit, transferOf alice bob])) = true :=
  derived_tidy_iff .none samplePools "position" (fun _ => none) _ handedLedger (by decide)
    (Option.some_get handed_derives).symm

theorem strange_derives : (rebuildPosition .none samplePools "position" (fun _ => none)
    [observedDeposit, transferOf carol alice]).isSome := by
  decide

def strangeLedger : Ledger :=
  (rebuildPosition .none samplePools "position" (fun _ => none)
    [observedDeposit, transferOf carol alice]).get strange_derives

theorem strange_source_untidy : ¬Tidy (bookOf strangeLedger.rows) strangeLedger.state.owner := by
  have first : (bookOf strangeLedger.rows 1).any (fun interval => interval.finish = none) := by
    decide +kernel
  have second : (bookOf strangeLedger.rows 2).any (fun interval => interval.finish = none) := by
    decide +kernel
  intro tidy
  obtain ⟨early, here, unended⟩ := (Option.any_eq_true _ _).mp first
  obtain ⟨late, there, open_⟩ := (Option.any_eq_true _ _).mp second
  have same := tidy.single 1 2 early late here there (of_decide_eq_true unended)
    (of_decide_eq_true open_)
  cases same

end RhPools.OwnershipIntervals
