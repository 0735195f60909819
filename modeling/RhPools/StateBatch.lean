import RhPools.AbiCodec
import RhPools.OffsetPaging
import RhPools.SqlTables

/-! Reads of pinned state in one batch. Equal calls are asked once; calls of contracts at
one block are packed into aggregates of bounded size; what an aggregate does not answer is
asked again call by call. The answers go back to the calls through three maps of indices. -/

namespace RhPools.StateBatch
open AbiCodec BigEndian OrderedTables OffsetPaging

abbrev Address := BitVec 160

/-- A parameter of a call: a mapping of exactly `to` and `data`, or any other by its text. -/
inductive Param where
  | transaction (target : Address) (data : Bytes)
  | other (json : String)
  deriving DecidableEq

structure StateCall where
  method : String
  params : List Param
  deriving DecidableEq

def ethCall (target : Address) (data : Bytes) (tag : Param) : StateCall :=
  ⟨"eth_call", [.transaction target data, tag]⟩

/-- The object under `error`: that of a reverted inner call, or the node's own. -/
inductive Failure where
  | reverted (data : Bytes)
  | told (text : String)
  deriving DecidableEq

inductive Reply where
  | data (bytes : Bytes)
  | json (text : String)
  | error (failure : Failure)
  deriving DecidableEq

def Same : Reply → Reply → Prop
  | .error _, .error _ => True
  | one, other => one = other

instance : (one other : Reply) → Decidable (Same one other)
  | .error _, .error _ => .isTrue trivial
  | .data one, other => inferInstanceAs (Decidable (.data one = other))
  | .json one, other => inferInstanceAs (Decidable (.json one = other))
  | .error _, .data _ | .error _, .json _ => .isFalse nofun

theorem same_refl (reply : Reply) : Same reply reply := by
  cases reply <;> simp [Same]

def MAX_PER_BATCH : Nat := 240

def MULTICALL3 : Address := 0xcA11bde05977b3631167028862bE2a173976CA11

def AGG3 : Bytes := [0x82, 0xad, 0x56, 0xcb]

/-- `(address,bool,bytes)[]`. -/
abbrev callTypes : Tys :=
  .cons (.array (.tuple (.cons (.word .address) (.cons (.word .bool) (.cons .bytes .nil))))) .nil

/-- `(bool,bytes)[]`. -/
abbrev answerTypes : Tys := .cons (.array (.tuple (.cons (.word .bool) (.cons .bytes .nil)))) .nil

def encode (abi : Codec) (calls : List (Address × Bytes)) : Option Bytes :=
  (abi.encode callTypes (calls.map fun call => (call.1, true, call.2, ()), ())).map (AGG3 ++ ·)

def decode (abi : Codec) : Reply → Option (List (Bool × Bytes))
  | .data bytes =>
    (abi.decode answerTypes bytes).map fun answers =>
      answers.1.map fun answer => (answer.1, answer.2.1)
  | .json _ | .error _ => none

def aggregate (payload : Bytes) (tag : Param) : StateCall := ethCall MULTICALL3 payload tag

def outcome (answer : Bool × Bytes) : Reply :=
  if answer.1 then .data answer.2 else .error (.reverted answer.2)

/-- What a direct call gives, and which posts the transport raises for. -/
structure Node where
  direct : StateCall → Reply
  rejects : Nat → List StateCall → Bool

def Node.fetch (node : Node) (attempt : Nat) (specs : List StateCall) : Option (List Reply) :=
  if node.rejects attempt specs then none else some (specs.map node.direct)

/-- An aggregate that answers every inner call tells what the direct calls give. -/
def Node.Multicall (abi : Codec) (node : Node) : Prop :=
  ∀ calls tag payload answers, encode abi calls = some payload →
    decode abi (node.direct (aggregate payload tag)) = some answers →
    answers.length = calls.length →
    List.Forall₂ (fun call answer => Same (outcome answer) (node.direct (ethCall call.1 call.2 tag)))
      calls answers

structure Asked where
  unique : List StateCall
  indexes : OrderedTable StateCall Nat
  order : List Nat

def ask (asked : Asked) (call : StateCall) : Asked :=
  match asked.indexes.get call with
  | some index => { asked with order := asked.order ++ [index] }
  | none =>
    { unique := asked.unique ++ [call]
      indexes := asked.indexes.assign call asked.unique.length
      order := asked.order ++ [asked.unique.length] }

def dedupe (calls : List StateCall) : Asked := calls.foldl ask ⟨[], .empty, []⟩

inductive Pin where
  | shared (tag : Param)
  | direct (index : Nat)
  deriving DecidableEq

def pin (index : Nat) (call : StateCall) : Pin :=
  match call.method, call.params with
  | "eth_call", [.transaction _ _, tag] => .shared tag
  | _, _ => .direct index

def grouped (unique : List StateCall) : OrderedTable Pin (List Nat) :=
  unique.zipIdx.foldl (fun groups entry => groups.append (pin entry.2 entry.1) entry.2) .empty

/-- `range(0, len(group), MAX_PER_BATCH)`. -/
def chunked (group : List Nat) : List (List Nat) :=
  (List.range ((group.length + MAX_PER_BATCH - 1) / MAX_PER_BATCH)).map fun chunk =>
    slice (chunk * MAX_PER_BATCH) MAX_PER_BATCH group

def members (unique : List StateCall) : List (List Nat) :=
  (grouped unique).entries.flatMap fun group => chunked group.2

def packed (unique : List StateCall) (index : Nat) : Option ((Address × Bytes) × Param) :=
  match unique[index]? with
  | some ⟨_, [.transaction target data, tag]⟩ => some ((target, data), tag)
  | _ => none

def specification (abi : Codec) (unique : List StateCall) : List Nat → Option StateCall
  | [index] => unique[index]?
  | chunk => do
    let parts ← chunk.mapM (packed unique)
    let payload ← encode abi (parts.map Prod.fst)
    let first ← parts.head?
    some (aggregate payload first.2)

def fill (pairs : List (Nat × Reply)) (results : List Reply) : List Reply :=
  pairs.foldl (fun results pair => results.set pair.1 pair.2) results

def collect (abi : Codec) (state : List Reply × List Nat) (run : List Nat × Reply) :
    List Reply × List Nat :=
  match run.1 with
  | [index] => (state.1.set index run.2, state.2)
  | chunk =>
    match decode abi run.2 with
    | none => (state.1, state.2 ++ chunk)
    | some answers =>
      if answers.length = chunk.length then
        (fill (chunk.zip (answers.map outcome)) state.1, state.2)
      else (state.1, state.2 ++ chunk)

def null : Reply := .json "null"

def ordered (order : List Nat) (results : List Reply) : List Reply :=
  order.map fun index => results[index]?.getD null

def rpcStateBatch (abi : Codec) (node : Node) (calls : List StateCall) : Option (List Reply) := do
  let asked := dedupe calls
  let chunks := members asked.unique
  let specifications ← chunks.mapM (specification abi asked.unique)
  match node.fetch 0 specifications with
  | none =>
    let direct ← node.fetch 1 asked.unique
    some (ordered asked.order direct)
  | some aggregated =>
    let first := (chunks.zip aggregated).foldl (collect abi)
      (List.replicate asked.unique.length null, [])
    if first.2.isEmpty then some (ordered asked.order first.1)
    else
      let again ← first.2.mapM fun index => asked.unique[index]?
      let direct ← node.fetch 1 again
      some (ordered asked.order (fill (first.2.zip direct) first.1))

/-- The maps of indices, after the calls `seen`. -/
structure Known (seen : List StateCall) (asked : Asked) : Prop where
  indexes : ∀ call index, asked.indexes.get call = some index → asked.unique[index]? = some call
  order : List.Forall₂ (fun call index => asked.unique[index]? = some call) seen asked.order
  inside : ∀ call ∈ asked.unique, call ∈ seen

theorem ask_known {seen : List StateCall} {asked : Asked} (known : Known seen asked)
    (call : StateCall) : Known (seen ++ [call]) (ask asked call) := by
  unfold ask
  cases found : asked.indexes.get call with
  | some index =>
    have here := known.indexes call index found
    exact ⟨known.indexes, List.rel_append known.order (.cons here .nil),
      fun other member => List.mem_append_left _ (known.inside other member)⟩
  | none =>
    have kept : ∀ (index : Nat) other, asked.unique[index]? = some other →
        (asked.unique ++ [call])[index]? = some other := by
      intro index other there
      obtain ⟨bound, _⟩ := List.getElem?_eq_some_iff.mp there
      rw [List.getElem?_append_left bound]
      exact there
    have last : (asked.unique ++ [call])[asked.unique.length]? = some call := by simp
    constructor
    · intro other index there
      dsimp only at there
      rw [get_assign] at there
      by_cases same : other = call
      · rw [if_pos same, Option.some.injEq] at there
        rw [← there, same]
        exact last
      · rw [if_neg same] at there
        exact kept index other (known.indexes other index there)
    · exact List.rel_append (known.order.imp fun other index there => kept index other there)
        (.cons last .nil)
    · intro other member
      rcases List.mem_append.mp member with old | new
      · exact List.mem_append_left _ (known.inside other old)
      · exact List.mem_append_right _ new

theorem foldl_known (calls : List StateCall) {seen : List StateCall} {asked : Asked}
    (known : Known seen asked) : Known (seen ++ calls) (calls.foldl ask asked) := by
  induction calls generalizing seen asked with
  | nil => simpa using known
  | cons call rest ih => simpa using ih (ask_known known call)

theorem dedupe_known (calls : List StateCall) : Known calls (dedupe calls) := by
  have start : Known [] ⟨[], .empty, []⟩ := ⟨fun _ _ absent => by simp at absent, .nil, by simp⟩
  exact foldl_known calls start

theorem get_grouped {Item Key Member : Type} [DecidableEq Key] (key : Item → Key)
    (value : Item → Member) (items : List Item) (groups : OrderedTable Key (List Member))
    (wanted : Key) :
    ((items.foldl (fun groups item => groups.append (key item) (value item)) groups).get
        wanted).getD [] =
      (groups.get wanted).getD [] ++ (items.filter fun item => key item = wanted).map value := by
  induction items generalizing groups with
  | nil => simp
  | cons item rest ih =>
    rw [List.foldl_cons, ih, OrderedTable.append, get_assign]
    by_cases here : key item = wanted
    · rw [if_pos here.symm, List.filter_cons_of_pos (by simpa using here), here]
      simp
    · rw [if_neg (Ne.symm here), List.filter_cons_of_neg (by simpa using here)]

variable {abi : Codec} {node : Node} {unique : List StateCall}

theorem mem_grouped {wanted : Pin} {group : List Nat}
    (member : (wanted, group) ∈ (grouped unique).entries) :
    group = (unique.zipIdx.filter fun entry => pin entry.2 entry.1 = wanted).map Prod.snd := by
  have found := (get_some _ _ _).mpr member
  have whole := get_grouped (fun entry : StateCall × Nat => pin entry.2 entry.1) Prod.snd
    unique.zipIdx .empty wanted
  rw [get_empty, Option.getD_none, List.nil_append] at whole
  rw [← whole, ← grouped, found]
  rfl

theorem chunked_flatten (group : List Nat) : (chunked group).flatten = group := by
  have enough : group.length ≤
      (group.length + MAX_PER_BATCH - 1) / MAX_PER_BATCH * MAX_PER_BATCH := by
    have split := Nat.div_add_mod (group.length + MAX_PER_BATCH - 1) MAX_PER_BATCH
    have rest := Nat.mod_lt (group.length + MAX_PER_BATCH - 1) (show 0 < MAX_PER_BATCH by decide)
    rw [Nat.mul_comm] at split
    omega
  have joined := pages_take MAX_PER_BATCH
    ((group.length + MAX_PER_BATCH - 1) / MAX_PER_BATCH) group
  rw [List.take_of_length_le enough] at joined
  rw [chunked, ← List.flatMap_def]
  exact joined

theorem pin_shared {index : Nat} {call : StateCall} {tag : Param}
    (here : pin index call = .shared tag) : ∃ target data, call = ethCall target data tag := by
  obtain ⟨method, params⟩ := call
  unfold pin at here
  split at here
  · rename_i target data other named shaped
    rw [Pin.shared.injEq] at here
    dsimp only at named shaped
    exact ⟨target, data, by rw [named, shaped, here]; rfl⟩
  · cases here

theorem pin_direct {index other : Nat} {call : StateCall}
    (here : pin index call = .direct other) : index = other := by
  unfold pin at here
  split at here
  · cases here
  · exact Pin.direct.inj here

variable {chunk : List Nat}

theorem chunk_known (member : chunk ∈ members unique) :
    chunk.Nodup ∧ ∃ wanted, ∀ index ∈ chunk, ∃ call,
      unique[index]? = some call ∧ pin index call = wanted := by
  obtain ⟨⟨wanted, group⟩, entry, piece⟩ := List.mem_flatMap.mp member
  have held := mem_grouped entry
  obtain ⟨number, _, rfl⟩ := List.mem_map.mp piece
  have part : (slice (number * MAX_PER_BATCH) MAX_PER_BATCH group).Sublist group :=
    (List.take_sublist _ _).trans (List.drop_sublist _ _)
  constructor
  · apply List.Nodup.sublist part
    rw [held]
    apply List.Nodup.sublist (List.filter_sublist.map Prod.snd)
    rw [List.zipIdx_map_snd]
    exact List.nodup_range'
  · refine ⟨wanted, ?_⟩
    intro index inside
    have inGroup := part.subset inside
    rw [held] at inGroup
    obtain ⟨⟨call, position⟩, kept, rfl⟩ := List.mem_map.mp inGroup
    obtain ⟨listed, same⟩ := List.mem_filter.mp kept
    exact ⟨call, List.mem_zipIdx_iff_getElem?.mp listed, of_decide_eq_true same⟩

theorem chunk_shape (member : chunk ∈ members unique) :
    (∃ index, chunk = [index]) ∨
      ∃ tag, ∀ index ∈ chunk, ∃ target data, unique[index]? = some (ethCall target data tag) := by
  obtain ⟨distinct, wanted, known⟩ := chunk_known member
  cases wanted with
  | shared tag =>
    right
    refine ⟨tag, ?_⟩
    intro index inside
    obtain ⟨call, found, same⟩ := known index inside
    obtain ⟨target, data, rfl⟩ := pin_shared same
    exact ⟨target, data, found⟩
  | direct only =>
    have all : ∀ index ∈ chunk, index = only := by
      intro index inside
      obtain ⟨call, _, same⟩ := known index inside
      exact pin_direct same
    cases chunk with
    | nil =>
      right
      exact ⟨.other "", fun index absent => absurd absent List.not_mem_nil⟩
    | cons first rest =>
      cases rest with
      | nil => exact Or.inl ⟨first, rfl⟩
      | cons second rest =>
        have same : first = second := (all first List.mem_cons_self).trans
          (all second (List.mem_cons_of_mem _ List.mem_cons_self)).symm
        rw [same] at distinct
        exact absurd List.mem_cons_self (List.nodup_cons.mp distinct).1

theorem chunked_size {group chunk : List Nat} (piece : chunk ∈ chunked group) :
    chunk ≠ [] ∧ chunk.length ≤ MAX_PER_BATCH := by
  obtain ⟨number, inside, rfl⟩ := List.mem_map.mp piece
  have positive : 0 < MAX_PER_BATCH := by decide
  have starts : number * MAX_PER_BATCH < group.length := by
    have bound := List.mem_range.mp inside
    have whole := (Nat.le_div_iff_mul_le positive).mp (Nat.succ_le_of_lt bound)
    rw [Nat.succ_mul] at whole
    omega
  have size : (slice (number * MAX_PER_BATCH) MAX_PER_BATCH group).length =
      min MAX_PER_BATCH (group.length - number * MAX_PER_BATCH) := by
    rw [slice, List.length_take, List.length_drop]
  constructor
  · apply List.ne_nil_of_length_pos
    rw [size]
    exact lt_min positive (Nat.sub_pos_of_lt starts)
  · rw [size]
    exact min_le_left _ _

theorem members_cover (unique : List StateCall) (index : Nat) (bound : index < unique.length) :
    ∃ chunk ∈ members unique, index ∈ chunk := by
  have whole := get_grouped (fun entry : StateCall × Nat => pin entry.2 entry.1) Prod.snd
    unique.zipIdx .empty (pin index unique[index])
  rw [get_empty, Option.getD_none, List.nil_append, ← grouped] at whole
  have inside : index ∈ ((grouped unique).get (pin index unique[index])).getD [] := by
    rw [whole]
    apply List.mem_map.mpr
    refine ⟨(unique[index], index), List.mem_filter.mpr ⟨?_, by simp⟩, rfl⟩
    exact List.mem_zipIdx_iff_getElem?.mpr (List.getElem?_eq_getElem bound)
  cases found : (grouped unique).get (pin index unique[index]) with
  | none =>
    rw [found] at inside
    exact absurd inside List.not_mem_nil
  | some group =>
    rw [found, Option.getD_some, ← chunked_flatten group] at inside
    obtain ⟨chunk, piece, here⟩ := List.mem_flatten.mp inside
    exact ⟨chunk, List.mem_flatMap.mpr ⟨_, (get_some _ _ _).mp found, piece⟩, here⟩

/-- The results at the indices `done` are those of the direct calls. -/
structure Filled (node : Node) (unique : List StateCall) (done : List Nat)
    (results : List Reply) : Prop where
  length : results.length = unique.length
  right : ∀ index ∈ done, ∀ call, unique[index]? = some call →
    ∃ reply, results[index]? = some reply ∧ Same reply (node.direct call)

theorem Filled.set {done : List Nat} {results : List Reply}
    (filled : Filled node unique done results) {index : Nat} {reply : Reply}
    (told : ∀ call, unique[index]? = some call → Same reply (node.direct call)) :
    Filled node unique (index :: done) (results.set index reply) := by
  constructor
  · rw [List.length_set]
    exact filled.length
  · intro other member call known
    by_cases same : index = other
    · obtain ⟨bound, _⟩ := List.getElem?_eq_some_iff.mp known
      subst same
      exact ⟨reply, List.getElem?_set_self (filled.length ▸ bound), told call known⟩
    · obtain ⟨old, kept, right⟩ := filled.right other
        ((List.mem_cons.mp member).resolve_left (Ne.symm same)) call known
      exact ⟨old, (List.getElem?_set_ne same).trans kept, right⟩

theorem Filled.fill {done : List Nat} {results : List Reply}
    (filled : Filled node unique done results) (pairs : List (Nat × Reply))
    (told : ∀ pair ∈ pairs, ∀ call, unique[pair.1]? = some call → Same pair.2 (node.direct call)) :
    ∃ done', Filled node unique done' (StateBatch.fill pairs results) ∧
      ∀ index, index ∈ done ∨ index ∈ pairs.map Prod.fst → index ∈ done' := by
  induction pairs generalizing done results with
  | nil => exact ⟨done, filled, by simp⟩
  | cons pair rest ih =>
    have step := filled.set (told pair List.mem_cons_self)
    obtain ⟨last, later, covered⟩ := ih step fun other member =>
      told other (List.mem_cons_of_mem _ member)
    refine ⟨last, later, ?_⟩
    intro index known
    apply covered
    rw [List.map_cons, List.mem_cons] at known
    rcases known with old | here | new
    · exact Or.inl (List.mem_cons_of_mem _ old)
    · exact Or.inl (List.mem_cons.mpr (Or.inl here))
    · exact Or.inr new

theorem mapM_each {Item Value : Type} (f : Item → Option Value) (items : List Item)
    (values : List Value) (mapped : items.mapM f = some values) :
    List.Forall₂ (fun item value => f item = some value) items values := by
  induction items generalizing values with
  | nil =>
    rw [List.mapM_nil] at mapped
    cases mapped
    exact .nil
  | cons item rest ih =>
    rw [List.mapM_cons] at mapped
    obtain ⟨value, here, mapped⟩ := Option.bind_eq_some_iff.mp mapped
    obtain ⟨others, later, mapped⟩ := Option.bind_eq_some_iff.mp mapped
    cases mapped
    exact .cons here (ih others later)

theorem each_trans {One Middle Other : Type} {first : One → Middle → Prop}
    {second : Middle → Other → Prop} {ones : List One} {middles : List Middle} {others : List Other}
    (left : List.Forall₂ first ones middles) (right : List.Forall₂ second middles others) :
    List.Forall₂ (fun one other => ∃ middle, first one middle ∧ second middle other) ones others := by
  induction left generalizing others with
  | nil =>
    cases right
    exact .nil
  | cons here _ ih =>
    cases right with
    | cons there rest => exact .cons ⟨_, here, there⟩ (ih rest)

theorem packed_ethCall {index : Nat} {target : Address} {data : Bytes} {tag : Param}
    (found : unique[index]? = some (ethCall target data tag)) :
    packed unique index = some ((target, data), tag) := by
  simp [packed, found, ethCall]

theorem parts_shared {tag : Param} {parts : List ((Address × Bytes) × Param)}
    (shared : ∀ index ∈ chunk, ∃ target data, unique[index]? = some (ethCall target data tag))
    (mapped : chunk.mapM (packed unique) = some parts) :
    List.Forall₂ (fun index part =>
      unique[index]? = some (ethCall part.1.1 part.1.2 tag) ∧ part.2 = tag) chunk parts := by
  have each := mapM_each _ _ _ mapped
  have both : List.Forall₂ (fun index part => index ∈ chunk ∧ packed unique index = some part)
      chunk parts := by
    rw [List.forall₂_iff_zip] at each ⊢
    exact ⟨each.1, fun member => ⟨(List.of_mem_zip member).1, each.2 member⟩⟩
  apply both.imp
  rintro index part ⟨member, found⟩
  obtain ⟨target, data, there⟩ := shared index member
  rw [packed_ethCall there, Option.some.injEq] at found
  rw [← found]
  exact ⟨there, rfl⟩

theorem aggregate_told (multicall : node.Multicall abi) {unique : List StateCall} {chunk : List Nat}
    {spec : StateCall} {tag : Param}
    (shared : ∀ index ∈ chunk, ∃ target data, unique[index]? = some (ethCall target data tag))
    (several : ∀ index, chunk ≠ [index]) (made : specification abi unique chunk = some spec)
    {answers : List (Bool × Bytes)} (decoded : decode abi (node.direct spec) = some answers)
    (whole : answers.length = chunk.length) :
    ∀ pair ∈ chunk.zip (answers.map outcome), ∀ call, unique[pair.1]? = some call →
      Same pair.2 (node.direct call) := by
  have packing : (do
      let parts ← chunk.mapM (packed unique)
      let payload ← encode abi (parts.map Prod.fst)
      let first ← parts.head?
      some (aggregate payload first.2)) = some spec := by
    unfold specification at made
    split at made
    · exact absurd rfl (several _)
    · exact made
  obtain ⟨parts, mapped, packing⟩ := Option.bind_eq_some_iff.mp packing
  obtain ⟨payload, encoded, packing⟩ := Option.bind_eq_some_iff.mp packing
  obtain ⟨first, front, packing⟩ := Option.bind_eq_some_iff.mp packing
  have each := parts_shared shared mapped
  have same : first.2 = tag := by
    cases each with
    | nil => cases front
    | cons here _ =>
      rw [List.head?_cons, Option.some.injEq] at front
      exact front ▸ here.2
  rw [same] at packing
  cases packing
  have count : answers.length = (parts.map Prod.fst).length := by
    rw [List.length_map, whole, each.length_eq]
  have told := multicall _ tag payload answers encoded decoded count
  rw [List.forall₂_map_left_iff] at told
  intro pair member call found
  rw [List.zip_map_right] at member
  obtain ⟨⟨index, answer⟩, zipped, rfl⟩ := List.mem_map.mp member
  obtain ⟨part, here, there⟩ :=
    (List.forall₂_iff_zip.mp (each_trans each told)).2 zipped
  have known := here.1.symm.trans found
  rw [Option.some.injEq] at known
  exact known ▸ there

/-- Replies collected so far: the calls of `seen` are placed or left for the fallback. -/
def Collected (node : Node) (unique : List StateCall) (seen : List Nat)
    (state : List Reply × List Nat) : Prop :=
  ∃ done, Filled node unique done state.1 ∧ (∀ index ∈ seen, index ∈ done ∨ index ∈ state.2) ∧
    ∀ index ∈ state.2, index < unique.length

theorem collect_collected (multicall : node.Multicall abi) {unique : List StateCall}
    {seen : List Nat} {state : List Reply × List Nat} (collected : Collected node unique seen state)
    {chunk : List Nat} (member : chunk ∈ members unique) {spec : StateCall}
    (made : specification abi unique chunk = some spec) :
    Collected node unique (seen ++ chunk) (collect abi state (chunk, node.direct spec)) := by
  obtain ⟨done, filled, covered, inside⟩ := collected
  have there : ∀ index ∈ chunk, index < unique.length := by
    intro index listed
    obtain ⟨_, _, known⟩ := chunk_known member
    obtain ⟨call, found, _⟩ := known index listed
    exact (List.getElem?_eq_some_iff.mp found).1
  have left : Collected node unique (seen ++ chunk) (state.1, state.2 ++ chunk) := by
    refine ⟨done, filled, ?_, ?_⟩
    · intro index known
      rcases List.mem_append.mp known with old | new
      · exact (covered index old).imp_right (List.mem_append_left _)
      · exact Or.inr (List.mem_append_right _ new)
    · intro index known
      rcases List.mem_append.mp known with old | new
      · exact inside index old
      · exact there index new
  unfold collect
  dsimp only
  split
  · rename_i index
    have named : unique[index]? = some spec := made
    refine ⟨index :: done, filled.set ?_, ?_, inside⟩
    · intro call found
      rw [named, Option.some.injEq] at found
      exact found ▸ same_refl _
    · intro other known
      rcases List.mem_append.mp known with old | new
      · exact (covered other old).imp_left (List.mem_cons_of_mem _)
      · rw [List.mem_singleton] at new
        exact Or.inl (new ▸ List.mem_cons_self)
  · rename_i several
    split
    · exact left
    · rename_i answers decoded
      split
      · rename_i whole
        obtain ⟨tag, shared⟩ := (chunk_shape member).resolve_left
          fun single => single.elim several
        have told := aggregate_told multicall shared several made decoded whole
        obtain ⟨last, filled, placed⟩ := filled.fill _ told
        refine ⟨last, filled, ?_, inside⟩
        intro index known
        rcases List.mem_append.mp known with old | new
        · exact (covered index old).imp_left fun before => placed index (Or.inl before)
        · left
          apply placed index
          right
          rw [List.map_fst_zip (by rw [List.length_map, whole])]
          exact new
      · exact left

theorem foldl_collected (multicall : node.Multicall abi) {unique : List StateCall}
    (chunks : List (List Nat)) (specs : List StateCall)
    (inside : ∀ chunk ∈ chunks, chunk ∈ members unique)
    (made : List.Forall₂ (fun chunk spec => specification abi unique chunk = some spec) chunks specs)
    {seen : List Nat} {state : List Reply × List Nat} (collected : Collected node unique seen state)
    :
    Collected node unique (seen ++ chunks.flatten)
      ((chunks.zip (specs.map node.direct)).foldl (collect abi) state) := by
  induction made generalizing seen state with
  | nil => simpa using collected
  | cons here _ ih =>
    have step := collect_collected multicall collected (inside _ List.mem_cons_self) here
    have later := ih (fun chunk member => inside chunk (List.mem_cons_of_mem _ member)) step
    simpa using later

theorem ordered_told {calls : List StateCall} {done : List Nat} {asked : Asked}
    {results : List Reply} (known : Known calls asked)
    (filled : Filled node asked.unique done results)
    (all : ∀ index < asked.unique.length, index ∈ done) :
    List.Forall₂ (fun call reply => Same reply (node.direct call)) calls
      (ordered asked.order results) := by
  rw [ordered, List.forall₂_map_right_iff]
  apply known.order.imp
  intro call index found
  obtain ⟨bound, _⟩ := List.getElem?_eq_some_iff.mp found
  obtain ⟨reply, placed, told⟩ := filled.right index (all index bound) call found
  rw [placed]
  exact told

theorem fetch_direct {attempt : Nat} {specs : List StateCall} {replies : List Reply}
    (fetched : node.fetch attempt specs = some replies) : replies = specs.map node.direct := by
  unfold Node.fetch at fetched
  split at fetched
  · cases fetched
  · exact (Option.some.inj fetched).symm

theorem Filled.again {done fallback : List Nat} {results : List Reply}
    (filled : Filled node unique done results) {again : List StateCall}
    (named : fallback.mapM (fun index => unique[index]?) = some again) :
    ∃ done', Filled node unique done'
        (StateBatch.fill (fallback.zip (again.map node.direct)) results) ∧
      ∀ index, index ∈ done ∨ index ∈ fallback → index ∈ done' := by
  have each := mapM_each _ _ _ named
  obtain ⟨last, placed, covered⟩ := filled.fill (fallback.zip (again.map node.direct)) (by
    intro pair member call found
    rw [List.zip_map_right] at member
    obtain ⟨⟨index, other⟩, zipped, rfl⟩ := List.mem_map.mp member
    have known := ((List.forall₂_iff_zip.mp each).2 zipped).symm.trans found
    rw [Option.some.injEq] at known
    exact known ▸ same_refl _)
  refine ⟨last, placed, ?_⟩
  rw [List.map_fst_zip (by rw [List.length_map, each.length_eq])] at covered
  exact covered

theorem returned_direct (abi : Codec) (node : Node) (multicall : node.Multicall abi)
    (calls : List StateCall) (results : List Reply)
    (returned : rpcStateBatch abi node calls = some results) :
    List.Forall₂ (fun call reply => Same reply (node.direct call)) calls results := by
  have known := dedupe_known calls
  obtain ⟨specs, made, returned⟩ := Option.bind_eq_some_iff.mp returned
  cases fetched : node.fetch 0 specs with
  | none =>
    rw [fetched] at returned
    obtain ⟨direct, asked, returned⟩ := Option.bind_eq_some_iff.mp returned
    rw [fetch_direct asked, Option.some.injEq] at returned
    rw [← returned]
    have filled : Filled node (dedupe calls).unique (List.range (dedupe calls).unique.length)
        ((dedupe calls).unique.map node.direct) := by
      constructor
      · exact List.length_map _
      · intro index _ call found
        exact ⟨node.direct call, by rw [List.getElem?_map, found]; rfl, same_refl _⟩
    apply ordered_told known filled
    · intro index bound
      exact List.mem_range.mpr bound
  | some aggregated =>
    have start : Collected node (dedupe calls).unique []
        (List.replicate (dedupe calls).unique.length null, []) :=
      ⟨[], ⟨List.length_replicate, by simp⟩, by simp, by simp⟩
    obtain ⟨done, filled, covered, _⟩ := foldl_collected multicall _ specs
      (fun chunk member => member) (mapM_each _ _ _ made) start
    have everything : ∀ index < (dedupe calls).unique.length,
        index ∈ done ∨ index ∈ (((members (dedupe calls).unique).zip
          (specs.map node.direct)).foldl (collect abi)
          (List.replicate (dedupe calls).unique.length null, [])).2 := by
      intro index bound
      obtain ⟨chunk, member, inside⟩ := members_cover _ index bound
      exact covered index (List.mem_flatten.mpr ⟨chunk, member, inside⟩)
    simp only [fetched, fetch_direct fetched] at returned
    split at returned
    · rename_i nothing
      rw [Option.some.injEq] at returned
      rw [← returned]
      apply ordered_told known filled
      intro index bound
      refine (everything index bound).resolve_right ?_
      rw [List.isEmpty_iff.mp nothing]
      exact List.not_mem_nil
    · obtain ⟨again, named, returned⟩ := Option.bind_eq_some_iff.mp returned
      obtain ⟨direct, asked, returned⟩ := Option.bind_eq_some_iff.mp returned
      rw [fetch_direct asked, Option.some.injEq] at returned
      rw [← returned]
      obtain ⟨last, placed, all⟩ := filled.again named
      apply ordered_told known placed
      intro index bound
      exact all index (everything index bound)

theorem mapM_total {Item Value : Type} (f : Item → Option Value) (items : List Item)
    (total : ∀ item ∈ items, ∃ value, f item = some value) :
    ∃ values, items.mapM f = some values := by
  induction items with
  | nil => exact ⟨[], List.mapM_nil⟩
  | cons item rest ih =>
    obtain ⟨value, here⟩ := total item List.mem_cons_self
    obtain ⟨values, later⟩ := ih fun other member => total other (List.mem_cons_of_mem _ member)
    refine ⟨value :: values, ?_⟩
    simp [List.mapM_cons, here, later]

/-- The codec encodes what the batch packs: at most a batch of the calls. -/
def Encodes (abi : Codec) (calls : List StateCall) : Prop :=
  ∀ parts : List (Address × Bytes), parts.length ≤ MAX_PER_BATCH →
    (∀ part ∈ parts, ∃ tag, ethCall part.1 part.2 tag ∈ calls) →
    ∃ payload, encode abi parts = some payload

theorem specification_total {calls : List StateCall} (encodes : Encodes abi calls)
    {unique : List StateCall} (inside : ∀ call ∈ unique, call ∈ calls) {chunk : List Nat}
    (member : chunk ∈ members unique) : ∃ spec, specification abi unique chunk = some spec := by
  obtain ⟨group, _, piece⟩ := List.mem_flatMap.mp member
  obtain ⟨nonempty, bounded⟩ := chunked_size piece
  unfold specification
  split
  · rename_i index
    obtain ⟨_, _, known⟩ := chunk_known member
    obtain ⟨call, found, _⟩ := known index List.mem_cons_self
    exact ⟨call, found⟩
  · rename_i several
    obtain ⟨tag, shared⟩ := (chunk_shape member).resolve_left fun single => single.elim several
    obtain ⟨parts, mapped⟩ := mapM_total (packed unique) chunk (by
      intro index listed
      obtain ⟨target, data, found⟩ := shared index listed
      exact ⟨_, packed_ethCall found⟩)
    have each := parts_shared shared mapped
    obtain ⟨payload, encoded⟩ := encodes (parts.map Prod.fst)
      (by rw [List.length_map, ← each.length_eq]; exact bounded) (by
        intro part listed
        obtain ⟨whole, there, rfl⟩ := List.mem_map.mp listed
        obtain ⟨position, bound, rfl⟩ := List.mem_iff_getElem.mp there
        have found := (each.get (each.length_eq ▸ bound) bound).1
        exact ⟨tag, inside _ (List.mem_of_getElem? found)⟩)
    cases parts with
    | nil => exact absurd (List.eq_nil_of_length_eq_zero each.length_eq) nonempty
    | cons first rest =>
      refine ⟨aggregate payload first.2, ?_⟩
      rw [List.map_cons] at encoded
      simp [mapped, encoded]

theorem batch_returns (abi : Codec) (node : Node) (multicall : node.Multicall abi)
    (calls : List StateCall) (encodes : Encodes abi calls)
    (serves : ∀ specs, node.rejects 1 specs = false) :
    ∃ results, rpcStateBatch abi node calls = some results := by
  have known := dedupe_known calls
  obtain ⟨specs, made⟩ := mapM_total (specification abi (dedupe calls).unique)
    (members (dedupe calls).unique) fun chunk member =>
      specification_total encodes known.inside member
  have again : ∀ specs, node.fetch 1 specs = some (specs.map node.direct) := by
    intro specs
    rw [Node.fetch, if_neg (by rw [serves specs]; exact Bool.false_ne_true)]
  have start : Collected node (dedupe calls).unique []
      (List.replicate (dedupe calls).unique.length null, []) :=
    ⟨[], ⟨List.length_replicate, by simp⟩, by simp, by simp⟩
  obtain ⟨_, _, _, inside⟩ := foldl_collected multicall _ specs
    (fun chunk member => member) (mapM_each _ _ _ made) start
  cases fetched : node.fetch 0 specs with
  | none =>
    refine ⟨ordered (dedupe calls).order ((dedupe calls).unique.map node.direct), ?_⟩
    simp [rpcStateBatch, made, fetched, again]
  | some aggregated =>
    rw [← fetch_direct fetched] at inside
    obtain ⟨named, all⟩ := mapM_total (fun index => (dedupe calls).unique[index]?) _
      fun index listed => ⟨_, List.getElem?_eq_getElem (inside index listed)⟩
    simp only [rpcStateBatch, made, fetched, Option.bind_eq_bind, Option.bind_some]
    split
    · exact ⟨_, rfl⟩
    · rw [all]
      simp only [Option.bind_some, again]
      exact ⟨_, rfl⟩

/-- Every entry of the batch is the value that the direct call gives, or an error where the
direct call gives an error; and the batch returns when direct calls are not refused. -/
theorem batch_direct (abi : Codec) (node : Node) (multicall : node.Multicall abi)
    (calls : List StateCall) :
    (∀ results, rpcStateBatch abi node calls = some results →
      List.Forall₂ (fun call reply => Same reply (node.direct call)) calls results) ∧
    (Encodes abi calls → (∀ specs, node.rejects 1 specs = false) →
      ∃ results, rpcStateBatch abi node calls = some results) :=
  ⟨returned_direct abi node multicall calls, batch_returns abi node multicall calls⟩

theorem encode_injective {one other : List (Address × Bytes)} {payload : Bytes}
    (first : encode abi one = some payload) (second : encode abi other = some payload) :
    one = other := by
  obtain ⟨body, written, joined⟩ := Option.map_eq_some_iff.mp first
  obtain ⟨again, rewritten, rejoined⟩ := Option.map_eq_some_iff.mp second
  have same : body = again := List.append_cancel_left (joined.trans rejoined.symm)
  have read := abi.decode_encode _ _ _ written
  rw [same, abi.decode_encode _ _ _ rewritten] at read
  have listed := congrArg Prod.fst (Option.some.inj read)
  apply List.map_injective_iff.mpr _ listed.symm
  intro call next equal
  have targets := congrArg (fun entry : Address × Bool × Bytes × Unit => entry.1) equal
  have datas := congrArg (fun entry : Address × Bool × Bytes × Unit => entry.2.2.1) equal
  exact Prod.ext targets datas

def latest : Param := .other "\"latest\""

def sampleParts : List (Address × Bytes) := [(1, []), (2, [])]

def sampleCalls : List StateCall :=
  [ethCall 1 [] latest, ethCall 2 [] latest, ethCall 1 [] latest]

def samplePayload : Bytes := (encode layout sampleParts).getD []

def sampleAnswers : List (Bool × Bytes) := [(true, [42]), (false, [1])]

def sampleReply : Bytes :=
  (layout.encode answerTypes ([(true, [42], ()), (false, [1], ())], ())).getD []

def sampleDirect (call : StateCall) : Reply :=
  if call = aggregate samplePayload latest then .data sampleReply
  else if call.params.head? = some (.transaction 1 []) then .data [42]
  else .error (.told "execution reverted")

def sampleNode : Node := ⟨sampleDirect, fun _ _ => false⟩

theorem getD_some {Value : Type} {found : Option Value} (there : found.isSome = true)
    (default : Value) : found = some (found.getD default) := by
  cases found with
  | none => cases there
  | some value => rfl

set_option maxRecDepth 4000 in
theorem samplePayload_encoded : encode layout sampleParts = some samplePayload := by
  have written : (encode layout sampleParts).isSome = true := by decide
  exact getD_some written []

set_option maxRecDepth 4000 in
theorem sampleReply_decoded : decode layout (.data sampleReply) = some sampleAnswers := by
  have written : (layout.encode answerTypes
      ([(true, [42], ()), (false, [1], ())], ())).isSome = true := by decide
  rw [decode, sampleReply, layout.decode_encode _ _ _ (getD_some written [])]
  rfl

theorem sampleNode_multicall : sampleNode.Multicall layout := by
  intro calls tag payload answers encoded decoded count
  by_cases same : aggregate payload tag = aggregate samplePayload latest
  · have shape : payload = samplePayload ∧ tag = latest := by
      simpa [aggregate, ethCall] using same
    have parts : calls = sampleParts :=
      encode_injective encoded (shape.1 ▸ samplePayload_encoded)
    have replied : sampleNode.direct (aggregate payload tag) = .data sampleReply := if_pos same
    rw [replied, sampleReply_decoded, Option.some.injEq] at decoded
    rw [← decoded, parts, shape.2]
    exact .cons (by decide) (.cons (by decide) .nil)
  · have failed : sampleNode.direct (aggregate payload tag) =
        .error (.told "execution reverted") := by
      have apart : ¬ (aggregate payload tag).params.head? = some (.transaction 1 []) := by
        simp [aggregate, ethCall, MULTICALL3]
      simp only [sampleNode, sampleDirect]
      rw [if_neg same, if_neg apart]
    rw [failed] at decoded
    cases decoded

set_option maxRecDepth 4000 in
theorem sampleCalls_returned : rpcStateBatch layout sampleNode sampleCalls =
    some [.data [42], .error (.reverted [1]), .data [42]] := by
  decide

theorem batch_direct_sample :
    List.Forall₂ (fun call reply => Same reply (sampleNode.direct call)) sampleCalls
      [.data [42], .error (.reverted [1]), .data [42]] :=
  (batch_direct layout sampleNode sampleNode_multicall sampleCalls).1 _ sampleCalls_returned

/-- The error of the aggregate is not the error object of the direct call. -/
theorem reverted_otherwise :
    sampleNode.Multicall layout ∧ ∃ results, rpcStateBatch layout sampleNode sampleCalls = some results ∧
      results[1]? ≠ some (sampleNode.direct (ethCall 2 [] latest)) := by
  refine ⟨sampleNode_multicall, _, sampleCalls_returned, ?_⟩
  decide +kernel

end RhPools.StateBatch
