import Mathlib.Data.List.Infix
import RhPools.GuardedRuns

/-! Routing of a JSON-RPC batch over several sources. The calls still to be asked
go to one source after the other, in posts of bounded size; a throttled post is
asked again in two halves, and what a source leaves open goes to the next. What
the sources do is the environment's choice, post by post. -/

namespace RhPools.RpcBatch
open GuardedRuns

variable {Params Value : Type}

def HASH_LOOKUP_METHODS : List String := ["eth_getTransactionByHash", "eth_getTransactionReceipt"]

def RATE_LIMITED_CODES : List Int := [-32005, -32007]

structure Call (Params : Type) where
  method : String
  params : Params
  deriving DecidableEq, Repr

structure Routing where
  capability : String
  allowReverts : Bool
  errorName : String
  errorTakesCode : Bool

abbrev Item (Params : Type) := Nat × Call Params

/-- The `error` of a response: whether it is an object, its integer code, its
message, and its text after redaction. -/
structure RpcError where
  isMapping : Bool
  code : Option Int
  message : String
  text : String
  deriving DecidableEq, Repr

structure RawItem (Value : Type) where
  id : Option Int
  error : Option RpcError
  result : Option (Option Value)
  deriving DecidableEq, Repr

structure Failure where
  message : String
  code : Option Int
  deriving DecidableEq, Repr

/-- What stands in the returned list, and what validation makes of a response: a
result, null included, a revert as data, a revert as an exception, or a failure. -/
inductive Entry (Value : Type) where
  | value (result : Option Value)
  | revert (error : RpcError)
  | reverted (failure : Failure)
  | failed (failure : Failure)
  deriving DecidableEq, Repr

def Entry.isAnswer : Entry Value → Bool
  | .value result => result.isSome
  | .revert _ => true
  | .reverted _ => true
  | .failed _ => false

def isRateLimited (failure : Failure) : Bool :=
  failure.code.any (RATE_LIMITED_CODES.contains ·) ||
    ["request limit", "rate limit", "too many requests"].any fun fragment =>
      decide (fragment.toList <:+: failure.message.toLower.toList)

def isExecutionRevert (method : String) (error : RpcError) : Bool :=
  ["eth_call", "eth_estimateGas"].contains method && error.isMapping &&
    (error.code = some 3 || ((error.code = some (-32000) || error.code = some (-32015)) &&
      error.message.toLower.startsWith "execution reverted"))

/-- `_error`: an error type without codes drops the code. -/
def Routing.error (routing : Routing) (message : String) (code : Option Int) : Failure :=
  ⟨message, if routing.errorTakesCode then code else none⟩

def validateItem (routing : Routing) (source : String) (item : Option (RawItem Value)) (requestId : Int)
    (method : String) (allowRevert : Bool) : Entry Value :=
  match item.filter fun item => item.id = some requestId with
  | none => .failed (routing.error s!"{source} returned malformed {method} response" none)
  | some item => match item.error with
    | some error =>
      let failure := routing.error s!"{source} {method}: {error.text}" error.code
      if allowRevert && isExecutionRevert method error then .revert error
      else if isExecutionRevert method error then .reverted failure
      else .failed failure
    | none => match item.result with
      | none => .failed (routing.error s!"{source} {method} response omitted result" none)
      | some result =>
        if method = "eth_getBlockByNumber" ∧ result.isNone then
          .failed (routing.error s!"{source} has no requested block header" none)
        else .value result

/-- What a post comes to: an exception before its items are read, a log range that
the source's head does not reach, or a list of objects to request ids from `first` on. -/
inductive Outcome (Value : Type) where
  | raised (failure : Failure)
  | ineligible
  | replied (first : Int) (raw : List (RawItem Value))

/-- The lists of `_run_batch` that outlive a source's turn. `answers` remembers what
sources returned for each call, whether or not it was looked at. -/
structure Board (Value : Type) where
  output : Nat → Entry Value
  messages : Nat → List String
  codes : Nat → Option Int
  validNulls : List Nat
  answers : List (Nat × Entry Value)

def Board.empty : Board Value := ⟨fun _ => .value none, fun _ => [], fun _ => none, [], []⟩

def Board.put (board : Board Value) (index : Nat) (entry : Entry Value) : Board Value :=
  { board with output := Function.update board.output index entry }

/-- `_safe_error` of a failure whose text is redacted already. -/
def safeError (routing : Routing) (failure : Failure) : String :=
  String.ofList ((routing.errorName ++ ": " ++ failure.message).toList.take 500)

def Board.remember (routing : Routing) (board : Board Value) (failure : Failure) (index : Nat) :
    Board Value :=
  { board with
    messages := Function.update board.messages index
      (board.messages index ++ [safeError routing failure])
    codes := match failure.code with
      | some code => Function.update board.codes index (some code)
      | none => board.codes }

/-- Posts of a source still to be made, whether each is half of a throttled one, and
the calls that the source answered null. -/
structure Turn (Params : Type) where
  source : String
  chunks : List (List (Item Params) × Bool)
  nullPending : List (Item Params)

structure State (Params Value : Type) where
  board : Board Value
  pending : List (Item Params)
  sources : List String
  turn : Option (Turn Params)
  returned : Option (List (Entry Value))

structure Heard (Params Value : Type) where
  board : Board Value
  nullPending : List (Item Params)
  unresolved : List (Item Params)
  throttled : List Failure

def said (routing : Routing) (source : String) (raw : List (RawItem Value)) (requestId : Int)
    (item : Item Params) : List (Nat × Entry Value) :=
  (raw.filter fun object => object.id = some requestId).map fun object =>
    (item.1, validateItem routing source (some object) requestId item.2.method routing.allowReverts)

/-- `by_id`: of several objects with one id the last stays. -/
def byId (raw : List (RawItem Value)) (requestId : Int) : Option (RawItem Value) :=
  raw.reverse.find? fun object => object.id = some requestId

def Heard.hear (routing : Routing) (heard : Heard Params Value) (item : Item Params) (entry : Entry Value) :
    Heard Params Value :=
  match entry with
  | .value none =>
    if item.2.method ∈ HASH_LOOKUP_METHODS then
      { heard with
        board := { heard.board with validNulls := item.1 :: heard.board.validNulls }
        nullPending := heard.nullPending ++ [item] }
    else { heard with board := heard.board.put item.1 entry }
  | .failed failure =>
    { heard with
      board := heard.board.remember routing failure item.1
      unresolved := heard.unresolved ++ [item]
      throttled := heard.throttled ++ [failure] }
  | entry => { heard with board := heard.board.put item.1 entry }

def hearAll (routing : Routing) (source : String) (raw : List (RawItem Value)) :
    Int → List (Item Params) → Heard Params Value → Heard Params Value
  | _, [], heard => heard
  | requestId, item :: rest, heard =>
    let noted := { heard with
      board := { heard.board with
        answers := heard.board.answers ++ said routing source raw requestId item } }
    hearAll routing source raw (requestId + 1) rest
      (noted.hear routing item (validateItem routing source (byId raw requestId) requestId item.2.method
        routing.allowReverts))

def queued (chunks : List (List (Item Params) × Bool)) : List (Item Params) :=
  chunks.flatMap Prod.fst

/-- One round of the `while chunks` loop. -/
def post (routing : Routing) (state : State Params Value) (turn : Turn Params)
    (attempted : List (Item Params)) (split : Bool) (rest : List (List (Item Params) × Bool)) :
    Outcome Value → Option (State Params Value)
  | .raised failure => some { state with
      board := attempted.foldl (fun board item => board.remember routing failure item.1) state.board
      pending := turn.nullPending ++ (attempted ++ queued rest)
      turn := none }
  | .ineligible =>
    if attempted.all (·.2.method = "eth_getLogs") then some { state with
      pending := turn.nullPending ++ (attempted ++ queued rest)
      turn := none }
    else none
  | .replied first raw =>
    let heard := hearAll routing turn.source raw first attempted
      ⟨state.board, turn.nullPending, [], []⟩
    if heard.unresolved ≠ [] then
      if split = false ∧ 1 < attempted.length ∧ heard.throttled.all isRateLimited then
        let half := attempted.length / 2
        some { state with
          board := heard.board
          turn := some ⟨turn.source,
            (attempted.take half, true) :: (attempted.drop half, true) :: rest,
            heard.nullPending⟩ }
      else some { state with
        board := heard.board
        pending := heard.unresolved ++ queued rest ++ heard.nullPending
        turn := none }
    else if rest = [] then some { state with
      board := heard.board
      pending := heard.nullPending
      turn := none }
    else some { state with
      board := heard.board
      turn := some ⟨turn.source, rest, heard.nullPending⟩ }

def leftOver (routing : Routing) (board : Board Value) (index : Nat) : Entry Value :=
  if index ∈ board.validNulls ∧ board.messages index = [] then .value none
  else if board.messages index ≠ [] then
    .failed (routing.error (routing.capability ++ " RPC exhausted: " ++
      "; ".intercalate (board.messages index)) (board.codes index))
  else .failed (routing.error (routing.capability ++ " RPC deferred during provider cooldown") none)

def finished (routing : Routing) (board : Board Value) (pending : List (Item Params)) :
    Board Value :=
  { board with output := fun index =>
      if index ∈ pending.map Prod.fst then leftOver routing board index
      else board.output index }

inductive Action (Value : Type) where
  /-- The loop comes to the next source: whether it may be tried now, and how many
  calls it takes in a post. -/
  | source (canTry : Bool) (limit : Nat)
  | post (outcome : Outcome Value)
  | finish

/-- Splitting a list in posts of at most `limit` items. -/
def chunked (limit : Nat) (items : List (Item Params)) : List (List (Item Params)) :=
  (List.range ((items.length + limit - 1) / limit)).map fun chunk =>
    (items.drop (chunk * limit)).take limit

/-- The steps of `_run_batch` once all calls have one capability. -/
def step (routing : Routing) (calls : List (Call Params))
    (state : State Params Value) : Action Value → Option (State Params Value)
  | .source canTry limit => match state.turn, state.sources with
    | none, source :: rest =>
      if state.pending = [] ∨ state.returned.isSome ∨ limit = 0 then none
      else if canTry then some { state with
        pending := []
        sources := rest
        turn := some ⟨source, (chunked limit state.pending).map (·, false), []⟩ }
      else some { state with sources := rest }
    | _, _ => none
  | .post outcome => match state.turn with
    | some turn => match turn.chunks with
      | (attempted, split) :: rest => post routing state turn attempted split rest outcome
      | [] => none
    | none => none
  | .finish =>
    if state.turn.isNone ∧ state.returned = none ∧ (state.sources = [] ∨ state.pending = []) then
      let board := finished routing state.board state.pending
      some { state with
        board := board
        returned := some ((List.range calls.length).map board.output) }
    else none

def opening (routing : Routing) (calls : List (Call Params)) (sources : List String)
    (configured : Bool) : State Params Value :=
  let state : State Params Value := ⟨.empty, calls.zipIdx.map Prod.swap, sources, none, none⟩
  if sources = [] ∧ configured = false then { state with
    returned := some (calls.map fun _ => .failed (routing.error (routing.capability ++
      " RPC unavailable; configure LP_RPC_" ++ routing.capability.toUpper ++ "_URLS") none)) }
  else state

def batchRuns (routing : Routing) (calls : List (Call Params)) :
    System (State Params Value) (Action Value) where
  start state := ∃ sources configured, state = opening routing calls sources configured
  step := step routing calls

def Answered (answers : List (Nat × Entry Value)) (index : Nat) : Prop :=
  ∃ entry, (index, entry) ∈ answers ∧ entry.isAnswer

/-- Every entry is an answer that some source gave to its call, null only to a hash
lookup, or a failure; and a call that was answered has an answer. -/
def Kept (calls : List (Call Params)) (answers : List (Nat × Entry Value))
    (output : List (Entry Value)) : Prop :=
  output.length = calls.length ∧ ∀ index call entry, calls[index]? = some call →
    output[index]? = some entry →
      ((∃ failure, entry = .failed failure) ∨ (index, entry) ∈ answers ∧
        (entry = .value none → call.method ∈ HASH_LOOKUP_METHODS)) ∧
      (Answered answers index → (index, entry) ∈ answers ∧ entry.isAnswer)

def nullsToLookups (routing : Routing) (state : State Params Value) : Action Value → Prop
  | .post (.replied first raw) => ∀ turn ∈ state.turn, ∀ chunk ∈ turn.chunks.head?,
      ∀ (offset : Nat) item, chunk.1[offset]? = some item →
        item.2.method ∉ HASH_LOOKUP_METHODS →
          ∀ entry ∈ said routing turn.source raw (first + offset) item, entry.2 ≠ .value none
  | _ => True

def Good (board : Board Value) (index : Nat) : Prop :=
  (index, board.output index) ∈ board.answers ∧ (board.output index).isAnswer

/-- After a reply each item has an answer or stands on a list, and nothing said
before is lost. -/
structure Hears (items : List (Item Params)) (heard after : Heard Params Value) : Prop where
  answers : ∀ answer ∈ heard.board.answers, answer ∈ after.board.answers
  keeps : ∀ index, Good heard.board index → Good after.board index
  nulls : ∀ item ∈ heard.nullPending, item ∈ after.nullPending
  opens : ∀ item ∈ heard.unresolved, item ∈ after.unresolved
  placed : ∀ item ∈ items,
    Good after.board item.1 ∨ item ∈ after.nullPending ∨ item ∈ after.unresolved
  only : ∀ item, item ∈ after.nullPending ∨ item ∈ after.unresolved →
    item ∈ heard.nullPending ∨ item ∈ heard.unresolved ∨ item ∈ items
  lookups : ∀ index ∈ after.board.validNulls, index ∈ heard.board.validNulls ∨
    ∃ item ∈ items, item.1 = index ∧ item.2.method ∈ HASH_LOOKUP_METHODS ∧
      (index, .value none) ∈ after.board.answers

variable (routing : Routing) (board : Board Value) (heard : Heard Params Value)

theorem Hears.refl : Hears [] heard heard := by
  refine ⟨fun _ same => same, fun _ same => same, fun _ same => same, fun _ same => same, ?_, ?_,
    fun _ same => .inl same⟩
  · intro item member
    cases member
  · intro item member
    exact member.imp_right .inl

theorem Hears.cons {item : Item Params} {rest : List (Item Params)}
    {heard middle after : Heard Params Value} (first : Hears [item] heard middle)
    (later : Hears rest middle after) : Hears (item :: rest) heard after := by
  refine ⟨fun answer member => later.answers _ (first.answers _ member),
    fun index good => later.keeps _ (first.keeps _ good),
    fun other member => later.nulls _ (first.nulls _ member),
    fun other member => later.opens _ (first.opens _ member), ?_, ?_, ?_⟩
  · intro other member
    rcases List.mem_cons.mp member with rfl | member
    · rcases first.placed other (.head _) with good | null | unanswered
      · exact .inl (later.keeps _ good)
      · exact .inr (.inl (later.nulls _ null))
      · exact .inr (.inr (later.opens _ unanswered))
    · exact later.placed other member
  · intro other member
    rcases later.only other member with null | unanswered | inside
    · exact (first.only other (.inl null)).imp_right (Or.imp_right fun same => by
        rw [List.mem_singleton.mp same]
        exact .head _)
    · exact (first.only other (.inr unanswered)).imp_right (Or.imp_right fun same => by
        rw [List.mem_singleton.mp same]
        exact .head _)
    · exact .inr (.inr (.tail _ inside))
  · intro index member
    rcases later.lookups index member with before | ⟨other, inside, found⟩
    · rcases first.lookups index before with old | ⟨other, inside, same, method, answered⟩
      · exact .inl old
      · refine .inr ⟨other, ?_, same, method, later.answers _ answered⟩
        rw [List.mem_singleton.mp inside]
        exact .head _
    · exact .inr ⟨other, .tail _ inside, found⟩

theorem good_put (index : Nat) (entry : Entry Value) (said : (index, entry) ∈ board.answers)
    (answer : entry.isAnswer) (other : Nat) :
    (other = index ∨ Good board other) → Good (board.put index entry) other := by
  rintro (rfl | good)
  · simpa [Good, Board.put] using ⟨said, answer⟩
  · by_cases same : other = index
    · subst same
      simpa [Good, Board.put] using ⟨said, answer⟩
    · simpa [Good, Board.put, same] using good

theorem hear_hears (item : Item Params) (entry : Entry Value)
    (said : (item.1, entry) ∈ heard.board.answers ∨ ∃ failure, entry = .failed failure)
    (lookup : entry = .value none → item.2.method ∈ HASH_LOOKUP_METHODS) :
    Hears [item] heard (heard.hear routing item entry) := by
  -- An answer is written down at once.
  have answered : entry.isAnswer → heard.hear routing item entry =
      { heard with board := heard.board.put item.1 entry } → Hears [item] heard
        (heard.hear routing item entry) := by
    intro answer same
    have told : (item.1, entry) ∈ heard.board.answers := by
      rcases said with told | ⟨failure, rfl⟩
      · exact told
      · cases answer
    rw [same]
    refine ⟨fun _ member => member, fun index good => good_put _ _ _ told answer _ (.inr good),
      fun _ member => member, fun _ member => member, ?_, ?_, fun _ member => .inl member⟩
    · intro other member
      obtain rfl := List.mem_singleton.mp member
      exact .inl (good_put _ _ _ told answer _ (.inl rfl))
    · intro other member
      exact member.imp_right .inl
  cases entry with
  | value result =>
    cases result with
    | some value => exact answered rfl rfl
    | none =>
      have method := lookup rfl
      have told : (item.1, .value none) ∈ heard.board.answers := by
        rcases said with told | ⟨failure, wrong⟩
        · exact told
        · cases wrong
      simp only [Heard.hear, method, if_true]
      refine ⟨fun _ member => member, fun _ good => good,
        fun _ member => List.mem_append_left _ member, fun _ member => member, ?_, ?_, ?_⟩
      · intro other member
        obtain rfl := List.mem_singleton.mp member
        exact .inr (.inl (List.mem_append_right _ (.head _)))
      · intro other member
        rcases member with null | unanswered
        · rcases List.mem_append.mp null with old | new
          · exact .inl old
          · exact .inr (.inr new)
        · exact .inr (.inl unanswered)
      · intro index member
        rcases List.mem_cons.mp member with rfl | old
        · exact .inr ⟨item, .head _, rfl, method, told⟩
        · exact .inl old
  | revert error => exact answered rfl rfl
  | reverted failure => exact answered rfl rfl
  | failed failure =>
    refine ⟨fun _ member => member, fun _ good => good, fun _ member => member,
      fun _ member => List.mem_append_left _ member, ?_, ?_, fun _ member => .inl member⟩
    · intro other member
      obtain rfl := List.mem_singleton.mp member
      exact .inr (.inr (List.mem_append_right _ (.head _)))
    · intro other member
      rcases member with null | unanswered
      · exact .inl null
      · rcases List.mem_append.mp unanswered with old | new
        · exact .inr (.inl old)
        · exact .inr (.inr new)

/-- What `by_id` holds for a request was said to it, or the item counts as malformed. -/
theorem verdict_said (source : String) (raw : List (RawItem Value)) (requestId : Int)
    (item : Item Params) :
    (item.1, validateItem routing source (byId raw requestId) requestId item.2.method
      routing.allowReverts) ∈ said routing source raw requestId item ∨
    ∃ failure, validateItem routing source (byId raw requestId) requestId item.2.method
      routing.allowReverts = .failed failure := by
  cases found : byId raw requestId with
  | none => exact .inr ⟨_, rfl⟩
  | some object =>
    left
    have member := List.mem_of_find?_eq_some found
    have same := List.find?_some found
    apply List.mem_map.mpr
    exact ⟨object, List.mem_filter.mpr ⟨List.mem_reverse.mp member, same⟩, rfl⟩

theorem noted_hears (more : List (Nat × Entry Value)) :
    Hears [] heard { heard with
      board := { heard.board with answers := heard.board.answers ++ more } } := by
  refine ⟨fun _ member => List.mem_append_left _ member,
    fun _ good => ⟨List.mem_append_left _ good.1, good.2⟩, fun _ member => member,
    fun _ member => member, ?_, ?_, fun _ member => .inl member⟩
  · intro item member
    cases member
  · intro item member
    exact member.imp_right .inl

theorem Hears.after_noting {item : Item Params} {heard noted after : Heard Params Value}
    (noting : Hears [] heard noted) (hears : Hears [item] noted after) : Hears [item] heard after := by
  refine ⟨fun _ member => hears.answers _ (noting.answers _ member),
    fun _ good => hears.keeps _ (noting.keeps _ good),
    fun _ member => hears.nulls _ (noting.nulls _ member),
    fun _ member => hears.opens _ (noting.opens _ member), hears.placed, ?_, ?_⟩
  · intro other member
    rcases hears.only other member with null | unanswered | here
    · exact (noting.only other (.inl null)).imp_right (Or.imp_right fun wrong => by cases wrong)
    · exact (noting.only other (.inr unanswered)).imp_right (Or.imp_right fun wrong => by cases wrong)
    · exact .inr (.inr here)
  · intro index member
    rcases hears.lookups index member with before | found
    · rcases noting.lookups index before with old | ⟨other, wrong, _⟩
      · exact .inl old
      · cases wrong
    · exact .inr found

theorem hearAll_hears (source : String) (raw : List (RawItem Value)) (first : Int)
    (items : List (Item Params)) (heard : Heard Params Value)
    (lookups : ∀ (offset : Nat) item, items[offset]? = some item →
      item.2.method ∉ HASH_LOOKUP_METHODS →
        ∀ entry ∈ said routing source raw (first + offset) item, entry.2 ≠ .value none) :
    Hears items heard (hearAll routing source raw first items heard) := by
  induction items generalizing first heard with
  | nil => exact Hears.refl heard
  | cons item rest ih =>
    rw [hearAll]
    refine Hears.cons ((noted_hears heard _).after_noting (hear_hears routing _ item _ ?_ ?_))
      (ih (first + 1) _ ?_)
    · exact (verdict_said routing source raw first item).imp_left
        fun told => List.mem_append_right _ told
    · intro null
      by_contra other
      rcases verdict_said routing source raw first item with told | ⟨failure, wrong⟩
      · exact lookups 0 item rfl other _ (by simpa using told) null
      · rw [null] at wrong
        cases wrong
    · intro offset other found method entry told
      refine lookups (offset + 1) other (by simpa using found) method entry ?_
      have next : first + ((offset + 1 : Nat) : Int) = first + 1 + offset := by omega
      rw [next]
      exact told

def Turn.listed (turn : Turn Params) : List (Item Params) := queued turn.chunks ++ turn.nullPending

def State.listed (state : State Params Value) : List (Item Params) :=
  state.pending ++ (state.turn.map Turn.listed).getD []

structure Sound (calls : List (Call Params)) (state : State Params Value) : Prop where
  indexed : ∀ item ∈ state.listed, calls[item.1]? = some item.2
  covered : state.returned = none → ∀ index < calls.length,
    (∃ item ∈ state.listed, item.1 = index) ∨ Good state.board index
  lookups : ∀ index ∈ state.board.validNulls, ∃ call, calls[index]? = some call ∧
    call.method ∈ HASH_LOOKUP_METHODS ∧ (index, .value none) ∈ state.board.answers
  empty : state.turn.isSome → state.pending = []

theorem chunked_mem {limit : Nat} (positive : 0 < limit) (items : List (Item Params))
    (item : Item Params) : (∃ chunk ∈ chunked limit items, item ∈ chunk) ↔ item ∈ items := by
  constructor
  · rintro ⟨chunk, member, inside⟩
    obtain ⟨place, _, rfl⟩ := List.mem_map.mp member
    exact List.mem_of_mem_drop (List.mem_of_mem_take inside)
  · intro member
    obtain ⟨place, bound, rfl⟩ := List.mem_iff_getElem.mp member
    refine ⟨_, List.mem_map.mpr ⟨place / limit, ?_, rfl⟩, ?_⟩
    · rw [List.mem_range, Nat.div_lt_iff_lt_mul positive]
      have := Nat.div_add_mod (items.length + limit - 1) limit
      have := Nat.mod_lt (items.length + limit - 1) positive
      rw [Nat.mul_comm]
      omega
    · have whole := Nat.div_add_mod place limit
      have part := Nat.mod_lt place positive
      rw [Nat.mul_comm] at whole
      apply List.mem_iff_getElem.mpr
      refine ⟨place % limit, ?_, ?_⟩
      · rw [List.length_take, List.length_drop]
        omega
      · rw [List.getElem_take, List.getElem_drop]
        congr 1

theorem mem_queued (chunks : List (List (Item Params) × Bool)) (item : Item Params) :
    item ∈ queued chunks ↔ ∃ chunk ∈ chunks, item ∈ chunk.1 := List.mem_flatMap

variable {calls : List (Call Params)} {state next : State Params Value}

theorem Sound.move (sound : Sound calls state) (inside : ∀ item ∈ next.listed, item ∈ state.listed)
    (placed : ∀ item ∈ state.listed, item ∈ next.listed ∨ Good next.board item.1)
    (keeps : ∀ index, Good state.board index → Good next.board index)
    (lookups : ∀ index ∈ next.board.validNulls, ∃ call, calls[index]? = some call ∧
      call.method ∈ HASH_LOOKUP_METHODS ∧ (index, .value none) ∈ next.board.answers)
    (empty : next.turn.isSome → next.pending = []) (same : next.returned = state.returned) :
    Sound calls next := by
  refine ⟨fun item member => sound.indexed item (inside item member), ?_, lookups, empty⟩
  intro open_ index bound
  rcases sound.covered (same ▸ open_) index bound with ⟨item, member, rfl⟩ | good
  · exact (placed item member).imp_left fun listed => ⟨item, listed, rfl⟩
  · exact .inr (keeps index good)

theorem remember_all (failure : Failure) (items : List (Item Params)) (board : Board Value) :
    let after := items.foldl (fun board item => board.remember routing failure item.1) board
    after.output = board.output ∧ after.answers = board.answers ∧
      after.validNulls = board.validNulls := by
  induction items generalizing board with
  | nil => exact ⟨rfl, rfl, rfl⟩
  | cons item rest ih => exact ih (board.remember routing failure item.1)

section Posts
variable {routing : Routing} {calls : List (Call Params)} {state : State Params Value}
  {turn : Turn Params} {attempted : List (Item Params)} {split : Bool}
  {rest : List (List (Item Params) × Bool)}

theorem mem_listed (sound : Sound calls state) (held : state.turn = some turn)
    (shape : turn.chunks = (attempted, split) :: rest) (item : Item Params) :
    item ∈ state.listed ↔ item ∈ attempted ∨ item ∈ queued rest ∨ item ∈ turn.nullPending := by
  have none_pending : state.pending = [] := sound.empty (by rw [held]; rfl)
  simp [State.listed, Turn.listed, queued, none_pending, held, shape]

theorem post_left (sound : Sound calls state) (held : state.turn = some turn)
    (shape : turn.chunks = (attempted, split) :: rest) (board : Board Value)
    (output : board.output = state.board.output) (answers : board.answers = state.board.answers)
    (nulls : board.validNulls = state.board.validNulls) :
    Sound calls { state with
      board := board
      pending := turn.nullPending ++ (attempted ++ queued rest)
      turn := none } := by
  have listed := mem_listed sound held shape
  have same : ∀ item, item ∈ turn.nullPending ++ (attempted ++ queued rest) ↔
      item ∈ state.listed := by
    intro item
    rw [listed, List.mem_append, List.mem_append]
    tauto
  apply sound.move
  · intro item member
    exact (same item).mp (by simpa [State.listed] using member)
  · intro item member
    exact .inl (by simpa [State.listed] using (same item).mpr member)
  · intro index good
    simpa only [Good, output, answers] using good
  · simpa only [nulls, answers] using sound.lookups
  · intro wrong
    cases wrong
  · rfl

theorem Sound.replied {heard : Heard Params Value} {next : State Params Value}
    (sound : Sound calls state) (held : state.turn = some turn)
    (shape : turn.chunks = (attempted, split) :: rest)
    (hears : Hears attempted ⟨state.board, turn.nullPending, [], []⟩ heard)
    (board : next.board = heard.board)
    (inside : ∀ item ∈ next.listed, item ∈ attempted ∨ item ∈ queued rest ∨
      item ∈ heard.nullPending ∨ item ∈ heard.unresolved)
    (placed : ∀ item, item ∈ queued rest ∨ item ∈ heard.nullPending ∨ item ∈ heard.unresolved →
      item ∈ next.listed)
    (empty : next.turn.isSome → next.pending = []) (same : next.returned = state.returned) :
    Sound calls next := by
  have listed := mem_listed sound held shape
  have known : ∀ item, item ∈ heard.nullPending ∨ item ∈ heard.unresolved →
      item ∈ state.listed := by
    intro item member
    rcases hears.only item member with null | none_ | here
    · exact (listed item).mpr (.inr (.inr null))
    · cases none_
    · exact (listed item).mpr (.inl here)
  apply sound.move
  · intro item member
    rcases inside item member with here | waiting | left_open
    · exact (listed item).mpr (.inl here)
    · exact (listed item).mpr (.inr (.inl waiting))
    · exact known item left_open
  · intro item member
    rcases (listed item).mp member with here | waiting | null
    · rcases hears.placed item here with good | null | unanswered
      · exact .inr (board ▸ good)
      · exact .inl (placed item (.inr (.inl null)))
      · exact .inl (placed item (.inr (.inr unanswered)))
    · exact .inl (placed item (.inl waiting))
    · exact .inl (placed item (.inr (.inl (hears.nulls item null))))
  · intro index good
    exact board ▸ hears.keeps index good
  · intro index member
    rw [board] at member ⊢
    rcases hears.lookups index member with old | ⟨item, here, rfl, method, told⟩
    · obtain ⟨call, found, method, told⟩ := sound.lookups index old
      exact ⟨call, found, method, hears.answers _ told⟩
    · exact ⟨item.2, sound.indexed item ((listed item).mpr (.inl here)), method, told⟩
  · exact empty
  · exact same

theorem post_sound (sound : Sound calls state) (held : state.turn = some turn)
    (shape : turn.chunks = (attempted, split) :: rest) (outcome : Outcome Value)
    (next : State Params Value) (clean : nullsToLookups routing state (.post outcome))
    (posted : post routing state turn attempted split rest outcome = some next) :
    Sound calls next := by
  cases outcome with
  | raised failure =>
    cases posted
    obtain ⟨output, answers, nulls⟩ := remember_all routing failure attempted state.board
    exact post_left sound held shape _ output answers nulls
  | ineligible =>
    simp only [post] at posted
    split at posted
    · cases posted
      exact post_left sound held shape state.board rfl rfl rfl
    · cases posted
  | replied first raw =>
    have hears := hearAll_hears routing turn.source raw first attempted
      ⟨state.board, turn.nullPending, [], []⟩ (clean turn held (attempted, split)
        (by rw [shape]; rfl))
    have none_pending : state.pending = [] := sound.empty (by rw [held]; rfl)
    simp only [post] at posted
    generalize hearAll routing turn.source raw first attempted
      ⟨state.board, turn.nullPending, [], []⟩ = heard at hears posted
    split at posted
    · split at posted
      · -- The halves of the throttled post hold all its items.
        cases posted
        have halves : ∀ item, item ∈ attempted.take (attempted.length / 2) ∨
            item ∈ attempted.drop (attempted.length / 2) ↔ item ∈ attempted := by
          intro item
          rw [← List.mem_append, List.take_append_drop]
        have here : ∀ item, item ∈ State.listed { state with
            board := heard.board
            turn := some ⟨turn.source, (attempted.take (attempted.length / 2), true) ::
              (attempted.drop (attempted.length / 2), true) :: rest, heard.nullPending⟩ } ↔
            item ∈ attempted ∨ item ∈ queued rest ∨ item ∈ heard.nullPending := by
          intro item
          rw [← halves item]
          simp [State.listed, Turn.listed, queued, none_pending, or_assoc]
        refine sound.replied held shape hears rfl ?_ ?_ (fun _ => none_pending) rfl
        · intro item member
          exact ((here item).mp member).imp_right (Or.imp_right .inl)
        · rintro item (waiting | null | unanswered)
          · exact (here item).mpr (.inr (.inl waiting))
          · exact (here item).mpr (.inr (.inr null))
          · rcases hears.only item (.inr unanswered) with null | none_ | inside
            · exact (here item).mpr (.inr (.inr (hears.nulls item null)))
            · cases none_
            · exact (here item).mpr (.inl inside)
      · cases posted
        refine sound.replied held shape hears rfl ?_ ?_ (fun wrong => by cases wrong) rfl
        · intro item member
          have inside : item ∈ heard.unresolved ∨ item ∈ queued rest ∨
              item ∈ heard.nullPending := by
            simpa [State.listed] using member
          tauto
        · rintro item (waiting | null | unanswered)
          · simp [State.listed, waiting]
          · simp [State.listed, null]
          · simp [State.listed, unanswered]
    · rename_i none_unresolved
      have all : heard.unresolved = [] := not_not.mp none_unresolved
      split at posted
      · rename_i last
        cases posted
        refine sound.replied held shape hears rfl ?_ ?_ (fun wrong => by cases wrong) rfl
        · intro item member
          exact .inr (.inr (.inl (by simpa [State.listed] using member)))
        · rintro item (waiting | null | unanswered)
          · simp [last, queued] at waiting
          · simp [State.listed, null]
          · simp [all] at unanswered
      · cases posted
        refine sound.replied held shape hears rfl ?_ ?_ (fun _ => none_pending) rfl
        · intro item member
          have inside : item ∈ queued rest ∨ item ∈ heard.nullPending := by
            simpa [State.listed, Turn.listed, none_pending] using member
          tauto
        · rintro item (waiting | null | unanswered)
          · simp [State.listed, Turn.listed, waiting]
          · simp [State.listed, Turn.listed, null]
          · simp [all] at unanswered

end Posts

theorem step_sound (sound : Sound calls state) (action : Action Value)
    (clean : nullsToLookups routing state action)
    (stepped : step routing calls state action = some next) : Sound calls next := by
  cases action with
  | source canTry limit =>
    simp only [step] at stepped
    split at stepped
    · rename_i source rest idle _
      split at stepped
      · cases stepped
      rename_i asked
      have positive : 0 < limit := by
        by_contra zero
        exact asked (.inr (.inr (by omega)))
      split at stepped
      · cases stepped
        have same : ∀ item, item ∈ queued ((chunked limit state.pending).map (·, false)) ↔
            item ∈ state.pending := by
          intro item
          rw [← chunked_mem positive state.pending item]
          simp [mem_queued]
        apply sound.move
        · intro item member
          have inside : item ∈ queued ((chunked limit state.pending).map (·, false)) := by
            simpa [State.listed, Turn.listed] using member
          simp [State.listed, (same item).mp inside]
        · intro item member
          have inside : item ∈ state.pending := by
            simpa [State.listed, idle] using member
          exact .inl (by simp [State.listed, Turn.listed, (same item).mpr inside])
        · exact fun _ good => good
        · exact sound.lookups
        · exact fun _ => rfl
        · rfl
      · cases stepped
        exact ⟨sound.indexed, sound.covered, sound.lookups, sound.empty⟩
    · cases stepped
  | post outcome =>
    simp only [step] at stepped
    split at stepped
    · rename_i turn held
      split at stepped
      · rename_i attempted split_ rest shape
        exact post_sound sound held shape outcome next clean stepped
      · cases stepped
    · cases stepped
  | finish =>
    simp only [step] at stepped
    split at stepped
    · rename_i ready
      cases stepped
      refine ⟨sound.indexed, ?_, sound.lookups, sound.empty⟩
      intro open_
      cases open_
    · cases stepped

theorem opening_sound (calls : List (Call Params)) (sources : List String) (configured : Bool) :
    Sound calls (opening routing calls sources configured : State Params Value) := by
  have listed : ∀ item : Item Params, item ∈ calls.zipIdx.map Prod.swap ↔
      calls[item.1]? = some item.2 := by
    rintro ⟨index, call⟩
    simp [List.mem_zipIdx_iff_getElem?]
  have whole : Sound calls
      (⟨.empty, calls.zipIdx.map Prod.swap, sources, none, none⟩ : State Params Value) := by
    refine ⟨?_, ?_, ?_, ?_⟩
    · intro item member
      exact (listed item).mp (by simpa [State.listed] using member)
    · intro _ index bound
      left
      refine ⟨(index, calls[index]), ?_, rfl⟩
      have inside := (listed (index, calls[index])).mpr (List.getElem?_eq_getElem bound)
      simpa [State.listed] using inside
    · intro index member
      cases member
    · intro wrong
      cases wrong
  unfold opening
  simp only
  split
  · refine ⟨whole.indexed, ?_, whole.lookups, whole.empty⟩
    intro open_
    cases open_
  · exact whole

theorem post_returned {routing : Routing} {state next : State Params Value} {turn : Turn Params}
    {attempted : List (Item Params)} {split : Bool} {rest : List (List (Item Params) × Bool)}
    {outcome : Outcome Value}
    (posted : post routing state turn attempted split rest outcome = some next) :
    next.returned = state.returned := by
  cases outcome with
  | raised failure =>
    cases posted
    rfl
  | ineligible =>
    simp only [post] at posted
    split at posted <;> cases posted
    rfl
  | replied first raw =>
    simp only [post] at posted
    split at posted
    · split at posted <;> cases posted <;> rfl
    · split at posted <;> cases posted <;> rfl

theorem leftOver_not_answer (index : Nat) :
    (leftOver routing board index).isAnswer = false := by
  unfold leftOver
  split
  · rfl
  split <;> rfl

theorem leftOver_cases (index : Nat) :
    (leftOver routing board index = .value none ∧ index ∈ board.validNulls) ∨
      ∃ failure, leftOver routing board index = .failed failure := by
  unfold leftOver
  split
  · rename_i null
    exact .inl ⟨rfl, null.1⟩
  split
  · exact .inr ⟨_, rfl⟩
  · exact .inr ⟨_, rfl⟩

/-- The last loop overwrites the entries of the calls that are still pending, so the
list is right exactly when none of them was answered. -/
theorem finish_kept (calls : List (Call Params)) (state next : State Params Value)
    (sound : Sound calls state) (finished_ : step routing calls state .finish = some next) :
    next.turn = none ∧ ∃ output, next.returned = some output ∧ output.length = calls.length ∧
      (Kept calls next.board.answers output ↔
        ∀ item ∈ next.pending, ¬Answered next.board.answers item.1) := by
  simp only [step] at finished_
  split at finished_
  · rename_i ready
    obtain ⟨idle, open_, _⟩ := ready
    cases finished_
    refine ⟨Option.isNone_iff_eq_none.mp idle, _, rfl, by simp, ?_⟩
    have returned : ∀ index entry, ((List.range calls.length).map
        (finished routing state.board state.pending).output)[index]? = some entry →
        entry = (finished routing state.board state.pending).output index := by
      intro index entry found
      obtain ⟨bound, rfl⟩ := List.getElem?_eq_some_iff.mp found
      simp
    constructor
    · rintro ⟨_, right⟩ item member answered
      have call := sound.indexed item (List.mem_append_left _ member)
      have bound := (List.getElem?_eq_some_iff.mp call).1
      have entry : (finished routing state.board state.pending).output item.1 =
          leftOver routing state.board item.1 := if_pos (List.mem_map_of_mem member)
      obtain ⟨_, answer⟩ := (right item.1 item.2
        ((finished routing state.board state.pending).output item.1) call (by simp [bound])).2 answered
      rw [entry, leftOver_not_answer] at answer
      cases answer
    · intro unanswered
      refine ⟨by simp, ?_⟩
      intro index call entry found placed
      obtain rfl := returned index entry placed
      by_cases left_ : index ∈ state.pending.map Prod.fst
      · have entry : (finished routing state.board state.pending).output index =
            leftOver routing state.board index := if_pos left_
        rw [entry]
        constructor
        · rcases leftOver_cases routing state.board index with ⟨null, lookup⟩ | failed
          · right
            obtain ⟨call', found', method, told⟩ := sound.lookups index lookup
            obtain rfl : call' = call := Option.some.inj (found'.symm.trans found)
            exact ⟨null ▸ told, fun _ => method⟩
          · exact .inl failed
        · intro answered
          obtain ⟨item, member, rfl⟩ := List.mem_map.mp left_
          exact absurd answered (unanswered item member)
      · have entry : (finished routing state.board state.pending).output index =
            state.board.output index := if_neg left_
        have good : Good state.board index := by
          have bound := (List.getElem?_eq_some_iff.mp found).1
          rcases sound.covered open_ index bound with ⟨item, member, rfl⟩ | good
          · have idle_turn : state.turn = none := Option.isNone_iff_eq_none.mp idle
            have inside : item ∈ state.pending := by
              simpa [State.listed, idle_turn] using member
            exact absurd (List.mem_map_of_mem inside) left_
          · exact good
        rw [entry]
        refine ⟨.inr ⟨good.1, ?_⟩, fun _ => good⟩
        intro null
        have answer := good.2
        rw [null] at answer
        cases answer
  · cases finished_

structure Settled (calls : List (Call Params)) (state : State Params Value) : Prop where
  idle : state.returned.isSome → state.turn = none
  right : ∀ output, state.returned = some output → output.length = calls.length ∧
    (Kept calls state.board.answers output ↔
      ∀ item ∈ state.pending, ¬Answered state.board.answers item.1)

theorem Settled.open_ {state : State Params Value} (none_returned : state.returned = none) :
    Settled calls state := by
  constructor
  · rw [none_returned]
    intro wrong
    cases wrong
  · rw [none_returned]
    intro output wrong
    cases wrong

theorem step_settled (sound : Sound calls state) (settled : Settled calls state)
    (action : Action Value) (stepped : step routing calls state action = some next) :
    Settled calls next := by
  cases action with
  | source canTry limit =>
    simp only [step] at stepped
    split at stepped
    · split at stepped
      · cases stepped
      rename_i asked
      have none_returned : state.returned = none := by
        by_contra some_
        exact asked (.inr (.inl (Option.isSome_iff_ne_none.mpr some_)))
      split at stepped <;> cases stepped <;> exact .open_ none_returned
    · cases stepped
  | post outcome =>
    simp only [step] at stepped
    split at stepped
    · rename_i turn held
      have none_returned : state.returned = none := by
        by_contra some_
        have idle := settled.idle (Option.isSome_iff_ne_none.mpr some_)
        rw [held] at idle
        cases idle
      split at stepped
      · exact .open_ ((post_returned stepped).trans none_returned)
      · cases stepped
    · cases stepped
  | finish =>
    obtain ⟨idle, output, returned, right⟩ := finish_kept routing calls state next sound stepped
    refine ⟨fun _ => idle, ?_⟩
    intro other found
    obtain rfl : output = other := Option.some.inj (returned.symm.trans found)
    exact right

theorem opening_settled (calls : List (Call Params)) (sources : List String) (configured : Bool) :
    Settled calls (opening routing calls sources configured : State Params Value) := by
  unfold opening
  simp only
  split
  · -- Nobody was asked: all entries are failures.
    refine ⟨fun _ => rfl, ?_⟩
    rintro output ⟨⟩
    have nobody : ∀ index, ¬Answered (Board.empty : Board Value).answers index := by
      rintro index ⟨entry, member, _⟩
      cases member
    refine ⟨by simp, ?_⟩
    constructor
    · intro _ item _
      exact nobody item.1
    · intro _
      refine ⟨by simp, ?_⟩
      intro index call entry found placed
      obtain ⟨bound, rfl⟩ := List.getElem?_eq_some_iff.mp placed
      refine ⟨.inl ?_, fun answered => absurd answered (nobody index)⟩
      rw [List.getElem_map]
      exact ⟨_, rfl⟩
  · exact .open_ rfl

theorem returned_kept (calls : List (Call Params)) (state : State Params Value)
    (reached : (batchRuns routing calls).Reaches (nullsToLookups routing) state)
    (output : List (Entry Value)) (returned : state.returned = some output) :
    output.length = calls.length ∧ (Kept calls state.board.answers output ↔
      ∀ item ∈ state.pending, ¬Answered state.board.answers item.1) := by
  have both : Sound calls state ∧ Settled calls state := by
    refine System.Reaches.invariant (fun state => Sound calls state ∧ Settled calls state) ?_ ?_
      state reached
    · rintro state ⟨sources, configured, rfl⟩
      exact ⟨opening_sound routing calls sources configured,
        opening_settled routing calls sources configured⟩
    · rintro state action next ⟨sound, settled⟩ clean stepped
      exact ⟨step_sound routing sound action clean stepped,
        step_settled routing sound settled action stepped⟩
  exact both.2.right output returned

end RhPools.RpcBatch
