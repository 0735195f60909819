import Mathlib.Data.List.Chain
import RhPools.SqlTables

/-! The buffer of current activity: the headers of a suffix of the chain and the liquidity
events of their blocks. A header that does not continue the suffix cuts it or empties it,
and the events of a header go with it. -/

namespace RhPools.CurrentActivity
open OrderedTables

variable {Hash Value : Type}

structure Header (Hash : Type) where
  number : Int
  hash : Hash
  parentHash : Hash
  timestamp : Int
  deriving DecidableEq

inductive ActivityKind where
  | add | remove | collect | checkpoint | donate | fee | transfer
  deriving DecidableEq

abbrev Fields (Value : Type) := OrderedTable String Value

/-- `{**old, **new}`. -/
def merge (old new : Fields Value) : Fields Value :=
  new.entries.foldl (fun fields entry => fields.assign entry.1 entry.2) old

/-- What `data` or `pool` holds. -/
inductive Content (Value : Type) where
  | missing
  | plain (value : Value)
  | mapping (fields : Fields Value)

def Content.fields : Content Value → Fields Value
  | .mapping fields => fields
  | .missing | .plain _ => .empty

def Content.isMapping : Content Value → Bool
  | .mapping _ => true
  | .missing | .plain _ => false

def Content.orElse : Content Value → Content Value → Content Value
  | .missing, old => old
  | new, _ => new

/-- An event as it is passed in; a kind that is not kept is `none`. -/
structure RawEvent (Hash Value : Type) where
  blockHash : Option Hash
  blockNumber : Option Int
  timestamp : Option Int
  kind : Option ActivityKind
  txHash : Option Hash
  logIndex : Option Int
  data : Content Value
  pool : Content Value
  rest : Fields Value

structure Event (Hash Value : Type) where
  blockHash : Hash
  blockNumber : Int
  timestamp : Int
  kind : ActivityKind
  txHash : Hash
  logIndex : Option Int
  data : Content Value
  pool : Content Value
  rest : Fields Value

def given (field : Option Int) (default : Int) : Int :=
  match field with
  | none => default
  | some value => if value = 0 then default else value

def mergeEvent (header : Header Hash) (kind : ActivityKind) (txHash : Hash)
    (raw : RawEvent Hash Value) : Option (Event Hash Value) → Event Hash Value
  | none =>
    ⟨header.hash, header.number, header.timestamp, kind, txHash, raw.logIndex, raw.data,
      raw.pool, raw.rest⟩
  | some previous =>
    ⟨header.hash, header.number, header.timestamp, kind, txHash,
      raw.logIndex.or previous.logIndex,
      .mapping (merge previous.data.fields raw.data.fields),
      if previous.pool.isMapping || raw.pool.isMapping then
        .mapping (merge previous.pool.fields raw.pool.fields)
      else raw.pool.orElse previous.pool,
      merge previous.rest raw.rest⟩

section Equality
variable [DecidableEq Hash] [DecidableEq Value]

def alike (one other : Fields Value) : Bool :=
  one.size = other.size && one.entries.all fun entry => other.get entry.1 = some entry.2

def Content.alike : Content Value → Content Value → Bool
  | .missing, .missing => true
  | .plain one, .plain other => one = other
  | .mapping one, .mapping other => CurrentActivity.alike one other
  | _, _ => false

def Event.alike (one other : Event Hash Value) : Bool :=
  one.blockHash = other.blockHash && one.blockNumber = other.blockNumber &&
    one.timestamp = other.timestamp && one.kind = other.kind && one.txHash = other.txHash &&
    one.logIndex = other.logIndex && one.data.alike other.data && one.pool.alike other.pool &&
    CurrentActivity.alike one.rest other.rest

end Equality

abbrev EventKey (Hash : Type) := Hash × Hash × Int

structure Activity (Hash Value : Type) where
  headers : OrderedTable Int (Header Hash)
  events : OrderedTable (EventKey Hash) (Event Hash Value)
  keysByHash : OrderedTable Hash (List (EventKey Hash))
  revision : Nat
  epoch : Nat

def Activity.fresh : Activity Hash Value := ⟨.empty, .empty, .empty, 0, 0⟩

def CURRENT_LIMIT : Nat := 2048

/-- `_clear_current_activity_locked`, and whether the content changed. -/
def clearCurrentActivity (state : Activity Hash Value) : Activity Hash Value × Bool :=
  ({ state with headers := .empty, events := .empty, keysByHash := .empty },
    !state.events.entries.isEmpty)

section Observing
variable [DecidableEq Hash]

/-- `events.pop(key, None)`, and whether something was there. -/
def popKey (popped : OrderedTable (EventKey Hash) (Event Hash Value) × Bool)
    (key : EventKey Hash) : OrderedTable (EventKey Hash) (Event Hash Value) × Bool :=
  (popped.1.erase key, (popped.1.get key).isSome || popped.2)

/-- `_drop_current_activity_hash_locked`, and whether the content changed. -/
def dropCurrentActivityHash (state : Activity Hash Value) (hash : Hash) :
    Activity Hash Value × Bool :=
  let popped := ((state.keysByHash.get hash).getD []).foldl popKey (state.events, false)
  ({ state with events := popped.1, keysByHash := state.keysByHash.erase hash }, popped.2)

def dropHeaders : List (Int × Header Hash) → Activity Hash Value × Bool → Activity Hash Value × Bool
  | [], state => state
  | entry :: rest, (state, changed) =>
    let dropped := dropCurrentActivityHash
      { state with headers := state.headers.erase entry.1 } entry.2.hash
    dropHeaders rest (dropped.1, dropped.2 || changed)

/-- The end of `observe_current_block`: the header goes to the end, the oldest expire. -/
def appendHeader (header : Header Hash) (reset : Bool) (state : Activity Hash Value × Bool) :
    Activity Hash Value :=
  let kept := { state.1 with headers := state.1.headers.put header.number header }
  let expired := dropHeaders (kept.headers.entries.take (kept.headers.size - CURRENT_LIMIT))
    (kept, state.2)
  { expired.1 with
    revision := if expired.2 then expired.1.revision + 1 else expired.1.revision
    epoch := if reset then expired.1.epoch + 1 else expired.1.epoch }

/-- The headers from `number` on are orphans. What is left is kept if the new header
continues it. -/
def rejoin (state : Activity Hash Value) (header : Header Hash) : Activity Hash Value × Bool :=
  let orphaned := dropHeaders
    (state.headers.entries.filter fun entry => header.number ≤ entry.1) (state, false)
  match orphaned.1.headers.entries.getLast? with
  | none => orphaned
  | some parent =>
    if parent.2.number ≠ header.number - 1 ∨ parent.2.hash ≠ header.parentHash then
      let cleared := clearCurrentActivity orphaned.1
      (cleared.1, cleared.2 || orphaned.2)
    else orphaned

def observeCurrentBlock (state : Activity Hash Value) (header : Header Hash) :
    Activity Hash Value :=
  match state.headers.entries.getLast? with
  | none => appendHeader header false (state, false)
  | some prior =>
    if (state.headers.get header.number).any fun existing => existing.hash = header.hash then
      state
    else if header.number ≤ prior.2.number then appendHeader header true (rejoin state header)
    else if header.number ≠ prior.2.number + 1 ∨ header.parentHash ≠ prior.2.hash then
      appendHeader header true (clearCurrentActivity state)
    else appendHeader header false (state, false)

variable [DecidableEq Value]

def observeEvent (header : Header Hash) (state : Activity Hash Value × Bool)
    (raw : RawEvent Hash Value) : Activity Hash Value × Bool :=
  if raw.blockHash.getD header.hash ≠ header.hash ∨
      given raw.blockNumber header.number ≠ header.number ∨
      given raw.timestamp header.timestamp ≠ header.timestamp then state
  else
    match raw.kind, raw.txHash with
    | some kind, some txHash =>
      let key := (header.hash, txHash, raw.logIndex.getD 0)
      let previous := state.1.events.get key
      let merged := mergeEvent header kind txHash raw previous
      if previous.any fun old => old.alike merged then state
      else
        ({ state.1 with
            events := state.1.events.assign key merged
            keysByHash := state.1.keysByHash.assign header.hash
              (((state.1.keysByHash.get header.hash).getD []).insert key) }, true)
    | _, _ => state

def observeCurrentEvents (state : Activity Hash Value) (header : Header Hash)
    (events : List (RawEvent Hash Value)) : Activity Hash Value :=
  if (state.headers.get header.number).any fun canonical => canonical.hash = header.hash then
    let observed := events.foldl (observeEvent header) (state, false)
    { observed.1 with
      revision := if observed.2 then observed.1.revision + 1 else observed.1.revision }
  else state

end Observing

/-- Consecutive numbers, each header naming the one before as its parent. -/
structure Linked (entries : List (Int × Header Hash)) : Prop where
  numbered : ∀ entry ∈ entries, entry.2.number = entry.1
  chained : entries.IsChain fun before after =>
    after.1 = before.1 + 1 ∧ after.2.parentHash = before.2.hash

theorem Linked.rising {entries : List (Int × Header Hash)} (linked : Linked entries) :
    entries.Pairwise fun before after => before.1 < after.1 := by
  apply (List.isChain_iff_pairwise
    (R := fun (before after : Int × Header Hash) => before.1 < after.1)).mp
  apply linked.chained.imp
  intro before after next
  omega

theorem Linked.part {entries part : List (Int × Header Hash)} (linked : Linked entries)
    (inside : part <:+: entries) : Linked part :=
  ⟨fun entry member => linked.numbered entry (inside.subset member), linked.chained.infix inside⟩

theorem linked_nil : Linked ([] : List (Int × Header Hash)) :=
  ⟨fun _ absent => absurd absent List.not_mem_nil, .nil⟩

theorem Linked.le_last {entries : List (Int × Header Hash)} (linked : Linked entries)
    {last : Int × Header Hash} (atEnd : entries.getLast? = some last) :
    ∀ entry ∈ entries, entry.1 ≤ last.1 := by
  obtain ⟨front, rfl⟩ := List.getLast?_eq_some_iff.mp atEnd
  have rising := (List.pairwise_append.mp linked.rising).2.2
  intro entry member
  rcases List.mem_append.mp member with old | new
  · exact (rising entry old last (List.mem_singleton_self last)).le
  · rw [List.mem_singleton.mp new]

theorem below_front {entries : List (Int × Header Hash)}
    (rising : entries.Pairwise fun before after => before.1 < after.1) (number : Int) :
    (entries.filter fun entry => entry.1 < number) <+: entries := by
  induction entries with
  | nil => exact List.nil_prefix
  | cons entry rest ih =>
    obtain ⟨first, rising⟩ := List.pairwise_cons.mp rising
    by_cases here : entry.1 < number
    · rw [List.filter_cons_of_pos (by simpa using here)]
      exact (List.prefix_cons_inj entry).mpr (ih rising)
    · have none : (rest.filter fun entry => entry.1 < number) = [] := by
        apply List.filter_eq_nil_iff.mpr
        intro other member
        have above := first other member
        simp only [decide_eq_true_eq]
        omega
      rw [List.filter_cons_of_neg (by simpa using here), none]
      exact List.nil_prefix

theorem Linked.below {entries : List (Int × Header Hash)} (linked : Linked entries)
    (number : Int) : Linked (entries.filter fun entry => entry.1 < number) :=
  linked.part (below_front linked.rising number).isInfix

theorem Linked.append {entries : List (Int × Header Hash)} (linked : Linked entries)
    (header : Header Hash)
    (continues : ∀ last ∈ entries.getLast?,
      last.1 + 1 = header.number ∧ last.2.hash = header.parentHash) :
    Linked (entries ++ [(header.number, header)]) := by
  constructor
  · intro entry member
    rcases List.mem_append.mp member with old | new
    · exact linked.numbered entry old
    · rw [List.mem_singleton.mp new]
  · apply linked.chained.append (List.isChain_singleton _)
    intro last atEnd next first
    rw [List.head?_singleton, Option.mem_some_iff] at first
    have step := continues last atEnd
    rw [← first]
    exact ⟨step.1.symm, step.2.symm⟩

theorem filter_front {Key Row : Type} [DecidableEq Key] (entries : List (Key × Row))
    (distinct : (entries.map Prod.fst).Nodup) (count : Nat) :
    (entries.filter fun entry => entry.1 ∉ (entries.take count).map Prod.fst) =
      entries.drop count := by
  have parts : entries.take count ++ entries.drop count = entries := List.take_append_drop _ _
  have apart : ((entries.take count).map Prod.fst ++ (entries.drop count).map Prod.fst).Nodup := by
    rw [← List.map_append, parts]
    exact distinct
  have disjoint := (List.nodup_append.mp apart).2.2
  calc (entries.filter fun entry => entry.1 ∉ (entries.take count).map Prod.fst)
      = (entries.take count ++ entries.drop count).filter
          fun entry => entry.1 ∉ (entries.take count).map Prod.fst := by rw [parts]
    _ = entries.drop count := by
        rw [List.filter_append, List.filter_eq_nil_iff.mpr, List.filter_eq_self.mpr,
          List.nil_append]
        · intro entry member
          have there := List.mem_map_of_mem (f := Prod.fst) member
          simp only [decide_eq_true_eq]
          intro front
          exact disjoint _ front _ there rfl
        · intro entry member
          have there := List.mem_map_of_mem (f := Prod.fst) member
          simpa using there

variable [DecidableEq Hash]

/-- Every event is listed under its hash and stands in the block of a header; `said` are the
pairs of a hash and a timestamp that were passed in. -/
structure Homed (said : Hash → Int → Prop) (state : Activity Hash Value) : Prop where
  indexed : ∀ entry ∈ state.events.entries,
    entry.1 ∈ (state.keysByHash.get entry.1.1).getD []
  hashed : ∀ entry ∈ state.events.entries, entry.2.blockHash = entry.1.1
  housed : ∀ entry ∈ state.events.entries, ∃ home ∈ state.headers.entries,
    home.1 = entry.2.blockNumber ∧ home.2.hash = entry.2.blockHash
  told : ∀ home ∈ state.headers.entries, said home.2.hash home.2.timestamp
  stamped : ∀ entry ∈ state.events.entries, said entry.2.blockHash entry.2.timestamp

structure Tracks (start : Activity Hash Value) (state : Activity Hash Value × Bool) : Prop where
  revision : state.1.revision = start.revision
  steady : state.2 = false → state.1.events = start.events

theorem erase_missing {Key Row : Type} [DecidableEq Key] (table : OrderedTable Key Row) (key : Key)
    (missing : table.get key = none) : table.erase key = table := by
  have whole : (table.entries.filter fun entry => entry.1 ≠ key) = table.entries := by
    apply List.filter_eq_self.mpr
    intro entry member
    exact decide_eq_true ((get_none table key).mp missing entry member)
  unfold OrderedTable.erase OrderedTable.keep
  simp only [whole]

theorem foldl_popKey (keys : List (EventKey Hash))
    (popped : OrderedTable (EventKey Hash) (Event Hash Value) × Bool) :
    (∀ entry, entry ∈ (keys.foldl popKey popped).1.entries ↔
        entry ∈ popped.1.entries ∧ entry.1 ∉ keys) ∧
      ((keys.foldl popKey popped).2 = false →
        popped.2 = false ∧ (keys.foldl popKey popped).1 = popped.1) := by
  induction keys generalizing popped with
  | nil => simp
  | cons key rest ih =>
    have later := ih (popKey popped key)
    constructor
    · intro entry
      rw [List.foldl_cons, later.1, popKey, mem_erase]
      simp only [List.mem_cons, not_or, and_assoc]
    · intro quiet
      obtain ⟨here, same⟩ := later.2 quiet
      simp only [popKey, Bool.or_eq_false_iff, Option.isSome_eq_false_iff,
        Option.isNone_iff_eq_none] at here
      refine ⟨here.2, ?_⟩
      rw [List.foldl_cons, same, popKey, erase_missing _ _ here.1]

theorem dropCurrentActivityHash_tracks (start state : Activity Hash Value) (hash : Hash)
    (changed : Bool) (tracks : Tracks start (state, changed)) :
    Tracks start ((dropCurrentActivityHash state hash).1,
      (dropCurrentActivityHash state hash).2 || changed) := by
  have popped := foldl_popKey ((state.keysByHash.get hash).getD []) (state.events, false)
  constructor
  · exact tracks.revision
  · intro quiet
    obtain ⟨here, before⟩ := Bool.or_eq_false_iff.mp quiet
    exact (popped.2 here).2.trans (tracks.steady before)

theorem Homed.drop {said : Hash → Int → Prop} {state : Activity Hash Value}
    (homed : Homed said state) (entry : Int × Header Hash)
    (own : ∀ home ∈ state.headers.entries, home.1 = entry.1 → home = entry) :
    Homed said (dropCurrentActivityHash { state with headers := state.headers.erase entry.1 }
      entry.2.hash).1 := by
  have popped := (foldl_popKey ((state.keysByHash.get entry.2.hash).getD []) (state.events, false)).1
  have others : ∀ event, event ∈ ((((state.keysByHash.get entry.2.hash).getD []).foldl popKey
      (state.events, false)).1).entries →
      event ∈ state.events.entries ∧ event.1.1 ≠ entry.2.hash := by
    intro event member
    obtain ⟨inside, unlisted⟩ := (popped event).mp member
    refine ⟨inside, ?_⟩
    intro same
    have listed := homed.indexed event inside
    rw [same] at listed
    exact unlisted listed
  constructor
  · intro event member
    obtain ⟨inside, apart⟩ := others event member
    simp only [dropCurrentActivityHash, get_erase, if_neg apart]
    exact homed.indexed event inside
  · intro event member
    exact homed.hashed event (others event member).1
  · intro event member
    obtain ⟨inside, apart⟩ := others event member
    obtain ⟨home, kept, number, hash⟩ := homed.housed event inside
    refine ⟨home, (mem_erase _ _ _).mpr ⟨kept, ?_⟩, number, hash⟩
    intro same
    rw [own home kept same, homed.hashed event inside] at hash
    exact apart hash.symm
  · intro home member
    exact homed.told home ((mem_erase _ _ _).mp member).1
  · intro event member
    exact homed.stamped event (others event member).1

theorem dropHeaders_homed {said : Hash → Int → Prop} (gone : List (Int × Header Hash))
    {state : Activity Hash Value} (changed : Bool) (homed : Homed said state)
    (own : ∀ entry ∈ gone, ∀ home ∈ state.headers.entries, home.1 = entry.1 → home = entry) :
    Homed said (dropHeaders gone (state, changed)).1 ∧
      (dropHeaders gone (state, changed)).1.headers.entries =
        state.headers.entries.filter fun entry => entry.1 ∉ gone.map Prod.fst := by
  induction gone generalizing state changed with
  | nil => exact ⟨homed, by simp [dropHeaders]⟩
  | cons entry rest ih =>
    have here := homed.drop entry (own entry List.mem_cons_self)
    have later := fun changed => ih changed here fun other member home kept =>
      own other (List.mem_cons_of_mem _ member) home ((mem_erase _ _ _).mp kept).1
    rw [dropHeaders]
    refine ⟨(later _).1, (later _).2.trans ?_⟩
    simp only [dropCurrentActivityHash, OrderedTable.erase, OrderedTable.keep,
      List.filter_filter, List.map_cons, List.mem_cons, not_or, Bool.decide_and]
    apply List.filter_congr
    intro home _
    rw [Bool.and_comm]

theorem dropHeaders_tracks (start : Activity Hash Value) (gone : List (Int × Header Hash))
    (state : Activity Hash Value × Bool) (tracks : Tracks start state) :
    Tracks start (dropHeaders gone state) := by
  induction gone generalizing state with
  | nil => exact tracks
  | cons entry rest ih =>
    obtain ⟨state, changed⟩ := state
    rw [dropHeaders]
    exact ih _ (dropCurrentActivityHash_tracks start _ _ changed ⟨tracks.revision, tracks.steady⟩)

omit [DecidableEq Hash] in
theorem clear_tracks (start state : Activity Hash Value) (changed : Bool)
    (tracks : Tracks start (state, changed)) :
    Tracks start ((clearCurrentActivity state).1, (clearCurrentActivity state).2 || changed) := by
  constructor
  · exact tracks.revision
  · intro quiet
    obtain ⟨empty, before⟩ := Bool.or_eq_false_iff.mp quiet
    rw [← tracks.steady before]
    obtain ⟨headers, ⟨entries, distinct⟩, keys, revision, epoch⟩ := state
    cases entries with
    | nil => rfl
    | cons entry rest => cases empty

theorem homed_clear {said : Hash → Int → Prop} (state : Activity Hash Value) :
    Homed said (clearCurrentActivity state).1 := by
  constructor <;> intro entry absent <;> exact absurd absent List.not_mem_nil

structure Ready (header : Header Hash) (state : Activity Hash Value) : Prop where
  linked : Linked state.headers.entries
  below : ∀ entry ∈ state.headers.entries, entry.1 < header.number
  continues : ∀ last ∈ state.headers.entries.getLast?,
    last.1 + 1 = header.number ∧ last.2.hash = header.parentHash

theorem appendHeader_sound {said : Hash → Int → Prop} {header : Header Hash}
    (reset : Bool) {state : Activity Hash Value} (changed : Bool) (homed : Homed said state)
    (ready : Ready header state) (passed : said header.hash header.timestamp) :
    Homed said (appendHeader header reset (state, changed)) ∧
      Linked (appendHeader header reset (state, changed)).headers.entries ∧
      (appendHeader header reset (state, changed)).headers.size ≤ CURRENT_LIMIT := by
  have fresh : state.headers.erase header.number = state.headers := by
    apply erase_missing
    rw [get_none]
    intro entry member
    exact (ready.below entry member).ne
  have grown : (state.headers.put header.number header).entries =
      state.headers.entries ++ [(header.number, header)] := by
    show (state.headers.erase header.number).entries ++ _ = _
    rw [fresh]
  have kept : Homed said { state with headers := state.headers.put header.number header } := by
    refine ⟨homed.indexed, homed.hashed, ?_, ?_, homed.stamped⟩
    · intro event member
      obtain ⟨home, inside, same⟩ := homed.housed event member
      refine ⟨home, ?_, same⟩
      show home ∈ (state.headers.put header.number header).entries
      rw [grown]
      exact List.mem_append_left _ inside
    · intro home member
      have member : home ∈ (state.headers.put header.number header).entries := member
      rw [grown] at member
      rcases List.mem_append.mp member with old | new
      · exact homed.told home old
      · rw [List.mem_singleton.mp new]
        exact passed
  have linked : Linked (state.headers.put header.number header).entries := by
    rw [grown]
    exact ready.linked.append header ready.continues
  unfold appendHeader
  dsimp only
  generalize CURRENT_LIMIT = limit
  have expired := dropHeaders_homed
    ((state.headers.put header.number header).entries.take
      ((state.headers.put header.number header).size - limit)) changed kept (by
    intro entry member home inside same
    exact List.inj_on_of_nodup_map (state.headers.put header.number header).distinct inside
      (List.mem_of_mem_take member) same)
  have rest := expired.2.trans (filter_front _ (state.headers.put header.number header).distinct _)
  have count : (state.headers.put header.number header).entries.length =
    (state.headers.put header.number header).size := rfl
  refine ⟨⟨expired.1.indexed, expired.1.hashed, expired.1.housed, expired.1.told,
    expired.1.stamped⟩, ?_, ?_⟩
  · exact rest ▸ linked.part (List.drop_suffix _ _).isInfix
  · show (dropHeaders _ _).1.headers.entries.length ≤ limit
    rw [rest, List.length_drop]
    omega

omit [DecidableEq Hash] in
theorem ready_clear (header : Header Hash) (state : Activity Hash Value) :
    Ready header (clearCurrentActivity state).1 :=
  ⟨linked_nil, fun _ absent => absurd absent List.not_mem_nil,
    fun _ absent => absurd absent (Option.not_mem_none _)⟩

theorem rejoin_ready {said : Hash → Int → Prop} {state : Activity Hash Value}
    (header : Header Hash) (homed : Homed said state) (linked : Linked state.headers.entries) :
    Homed said (rejoin state header).1 ∧ Ready header (rejoin state header).1 := by
  have orphaned := dropHeaders_homed
    (state.headers.entries.filter fun entry => header.number ≤ entry.1) false homed (by
    intro entry member home inside same
    exact List.inj_on_of_nodup_map state.headers.distinct inside (List.mem_filter.mp member).1 same)
  have rest : (state.headers.entries.filter fun entry => entry.1 ∉
      (state.headers.entries.filter fun entry => header.number ≤ entry.1).map Prod.fst) =
      state.headers.entries.filter fun entry => entry.1 < header.number := by
    apply List.filter_congr
    intro entry member
    have orphan : entry.1 ∈ (state.headers.entries.filter fun entry =>
        header.number ≤ entry.1).map Prod.fst ↔ header.number ≤ entry.1 := by
      simp only [List.mem_map, List.mem_filter, decide_eq_true_eq]
      constructor
      · rintro ⟨other, ⟨_, above⟩, same⟩
        exact same ▸ above
      · intro above
        exact ⟨entry, ⟨member, above⟩, rfl⟩
    rw [decide_eq_decide, orphan, not_le]
  have below := linked.below header.number
  rw [← rest, ← orphaned.2] at below
  have under : ∀ entry ∈ (dropHeaders (state.headers.entries.filter fun entry =>
      header.number ≤ entry.1) (state, false)).1.headers.entries, entry.1 < header.number := by
    intro entry member
    rw [orphaned.2, rest] at member
    exact of_decide_eq_true (List.mem_filter.mp member).2
  unfold rejoin
  dsimp only
  split
  · rename_i nothing
    refine ⟨orphaned.1, below, under, ?_⟩
    rw [nothing]
    exact fun _ absent => absurd absent (Option.not_mem_none _)
  · rename_i parent last
    split
    · exact ⟨homed_clear _, ready_clear header _⟩
    · rename_i joined
      obtain ⟨number, hash⟩ := not_or.mp joined
      refine ⟨orphaned.1, below, under, ?_⟩
      intro other atEnd
      rw [last, Option.mem_some_iff] at atEnd
      subst atEnd
      have numbered := below.numbered parent (List.mem_of_getLast? last)
      constructor
      · have step := not_not.mp number
        omega
      · exact not_not.mp hash

structure Sound (said : Hash → Int → Prop) (state : Activity Hash Value) : Prop where
  homed : Homed said state
  linked : Linked state.headers.entries
  few : state.headers.size ≤ CURRENT_LIMIT

theorem observeCurrentBlock_sound {said : Hash → Int → Prop} {state : Activity Hash Value}
    (sound : Sound said state) (header : Header Hash)
    (passed : said header.hash header.timestamp) : Sound said (observeCurrentBlock state header) := by
  have appended : ∀ reset changed (kept : Activity Hash Value), Homed said kept →
      Ready header kept → Sound said (appendHeader header reset (kept, changed)) := by
    intro reset changed kept homed ready
    obtain ⟨homed, linked, few⟩ := appendHeader_sound reset changed homed ready passed
    exact ⟨homed, linked, few⟩
  unfold observeCurrentBlock
  split
  · rename_i nothing
    have empty := List.getLast?_eq_none_iff.mp nothing
    apply appended _ _ _ sound.homed
    refine ⟨sound.linked, ?_, ?_⟩
    · rw [empty]
      exact fun _ absent => absurd absent List.not_mem_nil
    · rw [nothing]
      exact fun _ absent => absurd absent (Option.not_mem_none _)
  · rename_i prior last
    split
    · exact sound
    · split
      · have kept := rejoin_ready header sound.homed sound.linked
        exact appended _ _ _ kept.1 kept.2
      · split
        · exact appended _ _ _ (homed_clear state) (ready_clear header state)
        · rename_i above joined
          obtain ⟨number, hash⟩ := not_or.mp joined
          have numbered := sound.linked.numbered prior (List.mem_of_getLast? last)
          have step := not_not.mp number
          apply appended _ _ _ sound.homed
          refine ⟨sound.linked, ?_, ?_⟩
          · intro entry member
            have bound := sound.linked.le_last last entry member
            omega
          · intro other atEnd
            rw [last, Option.mem_some_iff] at atEnd
            subst atEnd
            exact ⟨by omega, (not_not.mp hash).symm⟩

theorem observeCurrentBlock_tracks (state : Activity Hash Value) (header : Header Hash) :
    state.revision ≤ (observeCurrentBlock state header).revision ∧
      ((observeCurrentBlock state header).events ≠ state.events →
        state.revision < (observeCurrentBlock state header).revision) := by
  have still : Tracks state (state, false) := ⟨rfl, fun _ => rfl⟩
  have appended : ∀ reset kept, Tracks state kept →
      state.revision ≤ (appendHeader header reset kept).revision ∧
        ((appendHeader header reset kept).events ≠ state.events →
          state.revision < (appendHeader header reset kept).revision) := by
    intro reset kept tracks
    unfold appendHeader
    dsimp only
    generalize CURRENT_LIMIT = limit
    have expired := dropHeaders_tracks state
      ((kept.1.headers.put header.number header).entries.take
        ((kept.1.headers.put header.number header).size - limit))
      ({ kept.1 with headers := kept.1.headers.put header.number header }, kept.2)
      ⟨tracks.revision, tracks.steady⟩
    split
    · rw [expired.revision]
      exact ⟨Nat.le_succ _, fun _ => Nat.lt_succ_self _⟩
    · rename_i quiet
      have same := expired.steady (Bool.eq_false_iff.mpr quiet)
      exact ⟨expired.revision.ge, fun apart => absurd same apart⟩
  have rejoined : Tracks state (rejoin state header) := by
    have orphaned := dropHeaders_tracks state
      (state.headers.entries.filter fun entry => header.number ≤ entry.1) (state, false) still
    unfold rejoin
    dsimp only
    split
    · exact orphaned
    · split
      · exact clear_tracks state _ _ orphaned
      · exact orphaned
  have cleared : Tracks state (clearCurrentActivity state) := by
    have tracks := clear_tracks state state false still
    rwa [Bool.or_false] at tracks
  unfold observeCurrentBlock
  split
  · exact appended _ _ still
  · split
    · exact ⟨le_refl _, fun apart => absurd rfl apart⟩
    · split
      · exact appended _ _ rejoined
      · split
        · exact appended _ _ cleared
        · exact appended _ _ still

variable [DecidableEq Value]

omit [DecidableEq Hash] [DecidableEq Value] in
theorem mergeEvent_block (header : Header Hash) (kind : ActivityKind) (txHash : Hash)
    (raw : RawEvent Hash Value) (previous : Option (Event Hash Value)) :
    (mergeEvent header kind txHash raw previous).blockHash = header.hash ∧
      (mergeEvent header kind txHash raw previous).blockNumber = header.number ∧
      (mergeEvent header kind txHash raw previous).timestamp = header.timestamp := by
  cases previous <;> exact ⟨rfl, rfl, rfl⟩

variable {said : Hash → Int → Prop} {state : Activity Hash Value}

omit [DecidableEq Value] in
theorem Homed.store (homed : Homed said state) {key : EventKey Hash} {event : Event Hash Value}
    {home : Int × Header Hash} (kept : home ∈ state.headers.entries)
    (number : home.1 = event.blockNumber) (hash : home.2.hash = event.blockHash)
    (own : event.blockHash = key.1) (passed : said event.blockHash event.timestamp) :
    Homed said { state with
      events := state.events.assign key event
      keysByHash := state.keysByHash.assign key.1
        (((state.keysByHash.get key.1).getD []).insert key) } := by
  refine ⟨?_, ?_, ?_, homed.told, ?_⟩
  · intro entry member
    dsimp only
    rw [get_assign]
    rcases mem_assign _ _ _ _ member with old | new
    · by_cases same : entry.1.1 = key.1
      · have listed := homed.indexed entry old
        rw [same] at listed
        rw [if_pos same]
        exact List.mem_insert_of_mem listed
      · rw [if_neg same]
        exact homed.indexed entry old
    · rw [new, if_pos rfl]
      exact List.mem_insert_self
  · intro entry member
    rcases mem_assign _ _ _ _ member with old | new
    · exact homed.hashed entry old
    · rw [new]
      exact own
  · intro entry member
    rcases mem_assign _ _ _ _ member with old | new
    · exact homed.housed entry old
    · rw [new]
      exact ⟨home, kept, number, hash⟩
  · intro entry member
    rcases mem_assign _ _ _ _ member with old | new
    · exact homed.stamped entry old
    · rw [new]
      exact passed

structure Observes (said : Hash → Int → Prop) (start : Activity Hash Value)
    (state : Activity Hash Value × Bool) : Prop where
  homed : Homed said state.1
  headers : state.1.headers = start.headers
  tracks : Tracks start state

theorem observeEvent_observes {start : Activity Hash Value} {header home : Header Hash}
    (canonical : (header.number, home) ∈ start.headers.entries) (same : home.hash = header.hash)
    (passed : said header.hash header.timestamp) {state : Activity Hash Value × Bool}
    (observes : Observes said start state) (raw : RawEvent Hash Value) :
    Observes said start (observeEvent header state raw) := by
  unfold observeEvent
  split
  · exact observes
  · split
    · rename_i kind txHash _ _
      dsimp only
      split
      · exact observes
      · obtain ⟨hash, number, timestamp⟩ := mergeEvent_block header kind txHash raw
          (state.1.events.get (header.hash, txHash, raw.logIndex.getD 0))
        refine ⟨?_, observes.headers, ⟨observes.tracks.revision, fun quiet => by cases quiet⟩⟩
        have there : (header.number, home) ∈ state.1.headers.entries := by
          rw [observes.headers]
          exact canonical
        exact observes.homed.store there number.symm (same.trans hash.symm) hash
          (by rw [hash, timestamp]; exact passed)
    · exact observes

theorem foldl_observes {start : Activity Hash Value} {header home : Header Hash}
    (canonical : (header.number, home) ∈ start.headers.entries) (same : home.hash = header.hash)
    (passed : said header.hash header.timestamp) (events : List (RawEvent Hash Value))
    (state : Activity Hash Value × Bool) (observes : Observes said start state) :
    Observes said start (events.foldl (observeEvent header) state) := by
  induction events generalizing state with
  | nil => exact observes
  | cons raw rest ih => exact ih _ (observeEvent_observes canonical same passed observes raw)

theorem observeCurrentEvents_sound (sound : Sound said state) (header : Header Hash)
    (passed : said header.hash header.timestamp) (events : List (RawEvent Hash Value)) :
    Sound said (observeCurrentEvents state header events) ∧
      state.revision ≤ (observeCurrentEvents state header events).revision ∧
      ((observeCurrentEvents state header events).events ≠ state.events →
        state.revision < (observeCurrentEvents state header events).revision) := by
  unfold observeCurrentEvents
  split
  · rename_i known
    obtain ⟨home, found, hash⟩ := (Option.any_eq_true _ _).mp known
    have observed := foldl_observes ((get_some _ _ _).mp found) (of_decide_eq_true hash) passed
      events (state, false) ⟨sound.homed, rfl, ⟨rfl, fun _ => rfl⟩⟩
    dsimp only
    refine ⟨⟨⟨observed.homed.indexed, observed.homed.hashed, observed.homed.housed,
      observed.homed.told, observed.homed.stamped⟩, ?_, ?_⟩, ?_⟩
    · exact observed.headers ▸ sound.linked
    · exact observed.headers ▸ sound.few
    · rw [observed.tracks.revision]
      split
      · exact ⟨Nat.le_succ _, fun _ => Nat.lt_succ_self _⟩
      · rename_i quiet
        have steady := observed.tracks.steady (Bool.eq_false_iff.mpr quiet)
        exact ⟨le_refl _, fun apart => absurd steady apart⟩
  · exact ⟨sound, le_refl _, fun apart => absurd rfl apart⟩

inductive Call (Hash Value : Type) where
  | block (header : Header Hash)
  | events (header : Header Hash) (events : List (RawEvent Hash Value))

def Call.header : Call Hash Value → Header Hash
  | .block header => header
  | .events header _ => header

def observe (state : Activity Hash Value) : Call Hash Value → Activity Hash Value
  | .block header => observeCurrentBlock state header
  | .events header events => observeCurrentEvents state header events

def observeAll (calls : List (Call Hash Value)) : Activity Hash Value :=
  calls.foldl observe .fresh

theorem observe_sound (sound : Sound said state) (call : Call Hash Value)
    (passed : said call.header.hash call.header.timestamp) : Sound said (observe state call) := by
  cases call with
  | block header => exact observeCurrentBlock_sound sound header passed
  | events header events => exact (observeCurrentEvents_sound sound header passed events).1

omit [DecidableEq Value] in
theorem fresh_sound (said : Hash → Int → Prop) :
    Sound said (.fresh : Activity Hash Value) := by
  refine ⟨?_, linked_nil, Nat.zero_le _⟩
  constructor <;> intro entry absent <;> exact absurd absent List.not_mem_nil

theorem foldl_sound (calls : List (Call Hash Value)) (state : Activity Hash Value)
    (sound : Sound said state)
    (passed : ∀ call ∈ calls, said call.header.hash call.header.timestamp) :
    Sound said (calls.foldl observe state) := by
  induction calls generalizing state with
  | nil => exact sound
  | cons call rest ih =>
    apply ih _ (observe_sound sound call (passed call List.mem_cons_self))
    intro other member
    exact passed other (List.mem_cons_of_mem _ member)

def Said (calls : List (Call Hash Value)) (hash : Hash) (timestamp : Int) : Prop :=
  ∃ call ∈ calls, call.header.hash = hash ∧ call.header.timestamp = timestamp

def Agree (calls : List (Call Hash Value)) : Prop :=
  ∀ one ∈ calls, ∀ other ∈ calls, one.header.hash = other.header.hash →
    one.header.timestamp = other.header.timestamp

/-- The buffer is a continuous suffix, and every event stands in the block of a header, with
its timestamp if headers of one hash carry one. Whenever the events change, the revision
grows. -/
theorem buffer_continuous (calls : List (Call Hash Value)) :
    (observeAll calls).headers.size ≤ CURRENT_LIMIT ∧
      Linked (observeAll calls).headers.entries ∧
      (∀ entry ∈ (observeAll calls).events.entries, ∃ home ∈ (observeAll calls).headers.entries,
        home.2.number = entry.2.blockNumber ∧ home.2.hash = entry.2.blockHash ∧
          (Agree calls → home.2.timestamp = entry.2.timestamp)) ∧
      ∀ call, (observe (observeAll calls) call).events ≠ (observeAll calls).events →
        (observeAll calls).revision < (observe (observeAll calls) call).revision := by
  have sound : Sound (Said calls) (observeAll calls) :=
    foldl_sound calls .fresh (fresh_sound _) fun call member => ⟨call, member, rfl, rfl⟩
  refine ⟨sound.few, sound.linked, ?_, ?_⟩
  · intro entry member
    obtain ⟨home, kept, number, hash⟩ := sound.homed.housed entry member
    refine ⟨home, kept, (sound.linked.numbered home kept).trans number, hash, ?_⟩
    intro agree
    obtain ⟨one, first, oneHash, oneTime⟩ := sound.homed.told home kept
    obtain ⟨other, second, otherHash, otherTime⟩ := sound.homed.stamped entry member
    rw [← oneTime, ← otherTime]
    exact agree one first other second (oneHash.trans (hash.trans otherHash.symm))
  · intro call
    cases call with
    | block header => exact (observeCurrentBlock_tracks _ header).2
    | events header events =>
      have whole : Sound (fun _ _ => True) (calls.foldl observe .fresh) :=
        foldl_sound calls .fresh (fresh_sound _) fun _ _ => trivial
      exact (observeCurrentEvents_sound whole header trivial events).2.2

def laterHeader : Header Nat := ⟨1, 7, 6, 100⟩

def addEvent : RawEvent Nat Nat :=
  ⟨none, none, none, some .add, some 3, some 0, .missing, .missing, .empty⟩

def oneTime : List (Call Nat Nat) := [.block laterHeader, .events laterHeader [addEvent]]

theorem oneTime_stamped :
    ∀ entry ∈ (observeAll oneTime).events.entries,
      ∃ home ∈ (observeAll oneTime).headers.entries, home.2.timestamp = entry.2.timestamp := by
  intro entry member
  obtain ⟨home, kept, _, _, stamped⟩ := (buffer_continuous oneTime).2.2.1 entry member
  have agree : Agree oneTime := by unfold Agree; decide
  exact ⟨home, kept, stamped agree⟩

/-- The event of the block is passed in with a header of another timestamp. -/
def twoTimes : List (Call Nat Nat) :=
  [.block laterHeader, .events { laterHeader with timestamp := 101 } [addEvent]]

theorem twoTimes_apart :
    ∃ entry ∈ (observeAll twoTimes).events.entries,
      ∀ home ∈ (observeAll twoTimes).headers.entries,
        home.2.number = entry.2.blockNumber → home.2.hash = entry.2.blockHash →
          home.2.timestamp ≠ entry.2.timestamp := by
  decide

end RhPools.CurrentActivity
