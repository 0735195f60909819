import RhPools.PoolStats

/-! Claims on fees that are published beside the ledger. They are computed from a snapshot that
may be old, and are written only where the position, its place in the queue and the block are
still what the claim names. A rollback takes the claims of the epochs before it. -/

namespace RhPools.PublishedClaims
open OrderedTables PyValues PoolInventory PoolStats SearchCatalogue

/-- What Python makes of a value: `str`, `float` where the result is finite, and the digest of a
text. -/
structure Reader where
  casing : Casing
  shown : Value → String
  finiteFloat : Value → Option ℚ
  digest : String → String

def isNone : Value → Bool
  | .none => true
  | _ => false

def falsy : Value → Bool
  | .none => true
  | .str text => text = ""
  | .bytes bytes => bytes.isEmpty
  | .list items => items.isEmpty
  | .dict entries => entries.isEmpty
  | value => isZero value

variable (reader : Reader)

/-- `str(value or "")`. -/
def Reader.text (value : Value) : String :=
  if falsy value then ""
  else match value with
    | .str text => text
    | other => reader.shown other

def Reader.key (value : Value) : String := reader.casing.lower (strip (reader.text value))

/-- A row that is well formed, as `publish_claims` takes it; texts of numbers are kept as the
numbers. -/
structure Candidate where
  positionKey : String
  epoch : Int
  block : Int
  blockHash : String
  timestamp : Int
  last : Order
  liquidity : Int
  sqrtPriceX96 : Int
  tick : Int
  price0Usd : Option ℚ
  price1Usd : Option ℚ
  claim0 : Int
  claim1 : Int
  pendingKnown : Int
  pending0 : Option Int
  pending1 : Option Int
  stateJson : String
  deriving DecidableEq

def lastOf (source : Dict) : Option Order :=
  (rawIntValue (source.get "position_last_block")).bind fun block =>
    (rawIntValue (source.get "position_last_tx_index")).bind fun txIndex =>
      (rawIntValue (source.get "position_last_log_index")).map fun logIndex =>
        ⟨block, txIndex, logIndex⟩

def readCandidate (source : Dict) : Option Candidate :=
  (rawIntValue (source.get "epoch")).bind fun epoch =>
  (rawIntValue (source.get "block_number")).bind fun block =>
  (rawIntValue (source.get "timestamp")).bind fun timestamp =>
  (lastOf source).bind fun last =>
  (rawIntValue (source.get "liquidity")).bind fun liquidity =>
  (rawIntValue (source.get "sqrt_price_x96")).bind fun sqrtPriceX96 =>
  (rawIntValue (source.get "tick")).bind fun tick =>
  (rawIntValue (source.get "claim0")).bind fun claim0 =>
  (rawIntValue (source.get "claim1")).bind fun claim1 =>
  (rawIntValue (source.get "position_pending_known")).map fun pendingKnown =>
    { positionKey := reader.key (source.get "position_key")
      epoch := epoch
      block := block
      blockHash := reader.key (source.get "block_hash")
      timestamp := timestamp
      last := last
      liquidity := liquidity
      sqrtPriceX96 := sqrtPriceX96
      tick := tick
      price0Usd := reader.finiteFloat (source.get "price0_usd")
      price1Usd := reader.finiteFloat (source.get "price1_usd")
      claim0 := claim0
      claim1 := claim1
      pendingKnown := pendingKnown
      pending0 := rawIntValue (source.get "position_pending_principal0")
      pending1 := rawIntValue (source.get "position_pending_principal1")
      stateJson := reader.text (source.get "position_state_json") }

def unread {Item : Type} (source : Dict) (name : String) (read : Option Item) : Bool :=
  !isNone (source.get name) && read.isNone

def malformed (source : Dict) (candidate : Candidate) : Bool :=
  candidate.positionKey = "" || candidate.blockHash = "" ||
    (candidate.pendingKnown ≠ 0 && candidate.pendingKnown ≠ 1) ||
    (candidate.pendingKnown = 1 && (candidate.pending0.isNone || candidate.pending1.isNone)) ||
    unread source "position_pending_principal0" candidate.pending0 ||
    unread source "position_pending_principal1" candidate.pending1 ||
    candidate.pending0.any (· < 0) || candidate.pending1.any (· < 0) || candidate.block < 0 ||
    candidate.timestamp < 0 || candidate.last.block < 0 || candidate.last.txIndex < 0 ||
    candidate.last.logIndex < 0 || candidate.liquidity < 0 || candidate.sqrtPriceX96 ≤ 0 ||
    candidate.claim0 < 0 || candidate.claim1 < 0 ||
    unread source "price0_usd" candidate.price0Usd ||
    unread source "price1_usd" candidate.price1Usd

def candidateOf (source : Dict) : Option Candidate :=
  (readCandidate reader source).filter fun candidate => !malformed source candidate

def merge (candidates : OrderedTable String Candidate) (candidate : Candidate) :
    OrderedTable String Candidate :=
  match candidates.get candidate.positionKey with
  | some prior =>
    if prior.block < candidate.block ∨
        (prior.block = candidate.block ∧ prior.timestamp ≤ candidate.timestamp) then
      candidates.assign candidate.positionKey candidate
    else candidates
  | none => candidates.assign candidate.positionKey candidate

def candidatesOf (rows : List Dict) : OrderedTable String Candidate :=
  (rows.filterMap (candidateOf reader)).foldl merge .empty

structure Position where
  protocol : Option String
  activeEpisodeId : Option String
  last : Order
  liquidity : Option String
  liquidityKnown : Bool
  pendingPrincipal0 : Option String
  pendingPrincipal1 : Option String
  pendingKnown : Bool
  stateJson : String
  deriving DecidableEq

structure Block where
  hash : String
  timestamp : Int
  deriving DecidableEq

/-- A row of `lp_accounting_claims`. -/
structure Claim where
  epoch : Int
  block : Int
  blockHash : String
  timestamp : Int
  last : Order
  liquidity : Int
  sqrtPriceX96 : Int
  tick : Int
  price0Usd : Option ℚ
  price1Usd : Option ℚ
  claim0 : Int
  claim1 : Int
  stateDigest : String
  deriving DecidableEq

structure Db where
  positions : OrderedTable String Position
  pending : List String
  blocks : OrderedTable Int Block
  claims : OrderedTable String Claim
  epoch : Int

def fits (db : Db) (candidate : Candidate) : Bool :=
  candidate.epoch = db.epoch && candidate.positionKey ∉ db.pending &&
    (db.positions.get candidate.positionKey).any (fun position =>
      position.activeEpisodeId.isSome &&
      (position.protocol = some "v3" || position.protocol = some "v4") &&
      position.liquidityKnown && position.liquidity.bind rawInt = some candidate.liquidity &&
      position.last = candidate.last &&
      (if position.pendingKnown then 1 else 0 : Int) = candidate.pendingKnown &&
      position.pendingPrincipal0.bind rawInt = candidate.pending0 &&
      position.pendingPrincipal1.bind rawInt = candidate.pending1 &&
      position.stateJson = candidate.stateJson) &&
    candidate.last.block ≤ candidate.block &&
    (db.blocks.get candidate.block).any fun block =>
      reader.casing.lower block.hash = candidate.blockHash && block.timestamp = candidate.timestamp

def stored (candidate : Candidate) : Claim where
  epoch := candidate.epoch
  block := candidate.block
  blockHash := candidate.blockHash
  timestamp := candidate.timestamp
  last := candidate.last
  liquidity := candidate.liquidity
  sqrtPriceX96 := candidate.sqrtPriceX96
  tick := candidate.tick
  price0Usd := candidate.price0Usd
  price1Usd := candidate.price1Usd
  claim0 := candidate.claim0
  claim1 := candidate.claim1
  stateDigest := reader.digest candidate.stateJson

def supersedes (db : Db) (candidate : Candidate) : Bool :=
  (db.claims.get candidate.positionKey).all fun existing =>
    !(existing.epoch = db.epoch && existing.block > candidate.block) &&
      existing ≠ stored reader candidate

def accepted (db : Db) (rows : List Dict) : OrderedTable String Candidate :=
  (candidatesOf reader rows).remove fun _ candidate =>
    !(fits reader db candidate && supersedes reader db candidate)

def writeClaim (claims : OrderedTable String Claim) (entry : String × Candidate) :
    OrderedTable String Claim :=
  claims.assign entry.1 (stored reader entry.2)

/-- `publish_claims`, but for the valuations that follow. -/
def publishClaims (db : Db) (rows : List Dict) : Db :=
  let written := (accepted reader db rows).entries.foldl (writeClaim reader) db.claims
  { db with claims := written }

/-- `_invalidate_claims_after_rollback`. -/
def invalidateClaims (claims : OrderedTable String Claim) (ancestor nextEpoch : Int) :
    OrderedTable String Claim :=
  claims.remove fun _ claim => claim.block > ancestor || claim.epoch ≠ nextEpoch

def writeRow (positions : OrderedTable String Position) (entry : String × Option Position) :
    OrderedTable String Position :=
  entry.2.elim (positions.erase entry.1) (positions.assign entry.1)

/-- A rollback of the store: replays at once or queued ones leave some rows for the positions it
affects and some keys in the queue. -/
def rollback (db : Db) (ancestor : Int) (replayed : List (String × Option Position))
    (queued : List String) : Db where
  positions := replayed.foldl writeRow db.positions
  pending := db.pending ++ queued
  blocks := db.blocks.remove fun number _ => number > ancestor
  claims := invalidateClaims db.claims ancestor (db.epoch + 1)
  epoch := db.epoch + 1

inductive Action where
  | publishClaims (rows : List Dict)
  /-- A batch of events: keys that it queues, and rows of positions it changes. -/
  | apply (queued : List String) (changed : List (String × Option Position))
  /-- A replay is published; its key leaves the queue where nothing was queued since. -/
  | publish (key : String) (row : Option Position) (settled : Bool)
  | header (number : Int) (block : Block)
  | rollback (ancestor : Int) (replayed : List (String × Option Position)) (queued : List String)

def next (db : Db) : Action → Db
  | .publishClaims rows => publishClaims reader db rows
  | .apply queued changed =>
    { db with positions := changed.foldl writeRow db.positions, pending := db.pending ++ queued }
  | .publish key row settled =>
    { db with
      positions := writeRow db.positions (key, row)
      pending := if settled then db.pending.filter (· ≠ key) else db.pending }
  | .header number block => { db with blocks := db.blocks.assign number block }
  | .rollback ancestor replayed queued => rollback db ancestor replayed queued

def ledger : GuardedRuns.System Db Action where
  start db := db.claims = .empty
  step db action := some (next reader db action)

/-- A position as a claim names it, without a replay in the queue, and a canonical block that is
not older than its last event. -/
structure Supported (db : Db) (candidate : Candidate) : Prop where
  epoch : candidate.epoch = db.epoch
  settled : candidate.positionKey ∉ db.pending
  position : ∃ position, db.positions.get candidate.positionKey = some position ∧
    position.activeEpisodeId.isSome ∧ position.stateJson = candidate.stateJson ∧
    position.last = candidate.last ∧ position.liquidityKnown ∧
    position.liquidity.bind rawInt = some candidate.liquidity ∧
    (if position.pendingKnown then 1 else 0 : Int) = candidate.pendingKnown ∧
    position.pendingPrincipal0.bind rawInt = candidate.pending0 ∧
    position.pendingPrincipal1.bind rawInt = candidate.pending1 ∧
    position.last.block ≤ candidate.block
  block : ∃ block, db.blocks.get candidate.block = some block ∧
    reader.casing.lower block.hash = candidate.blockHash ∧ block.timestamp = candidate.timestamp

variable (db : Db)

theorem supported_of_fits (candidate : Candidate) (fit : fits reader db candidate = true) :
    Supported reader db candidate := by
  unfold fits at fit
  simp only [Bool.and_eq_true, decide_eq_true_eq, Option.any_eq_true] at fit
  obtain ⟨⟨⟨⟨epoch, settled⟩, position, there, here⟩, notOlder⟩, block, canonical, same, time⟩ := fit
  obtain ⟨⟨⟨⟨⟨⟨⟨⟨active, -⟩, known⟩, liquidity⟩, last⟩, pending⟩, first⟩, second⟩, json⟩ := here
  refine ⟨epoch, settled, ⟨position, there, active, json, last, known, liquidity, pending, first,
    second, ?_⟩, block, canonical, same, time⟩
  rw [last]
  exact notOlder

def Writes (key : String) (claim : Claim) (db : Db) (action : Action) : Prop :=
  ∃ rows source candidate, action = .publishClaims rows ∧ source ∈ rows ∧
    candidateOf reader source = some candidate ∧ candidate.positionKey = key ∧
    claim = stored reader candidate ∧ Supported reader db candidate

theorem get_merge (candidates : OrderedTable String Candidate) (candidate found : Candidate)
    (key : String) (there : (merge candidates candidate).get key = some found) :
    candidates.get key = some found ∨ (found = candidate ∧ key = candidate.positionKey) := by
  have written (there : (candidates.assign candidate.positionKey candidate).get key = some found) :
      candidates.get key = some found ∨ (found = candidate ∧ key = candidate.positionKey) := by
    rw [get_assign] at there
    split at there
    · next here => exact Or.inr ⟨(Option.some.inj there).symm, here⟩
    · exact Or.inl there
  unfold merge at there
  split at there
  · split at there
    · exact written there
    · exact Or.inl there
  · exact written there

theorem get_candidates (offered : List Candidate) (candidates : OrderedTable String Candidate)
    (key : String) (found : Candidate)
    (there : (offered.foldl merge candidates).get key = some found) :
    candidates.get key = some found ∨ (found ∈ offered ∧ key = found.positionKey) := by
  induction offered generalizing candidates with
  | nil => exact Or.inl there
  | cons candidate rest ih =>
    rcases ih (merge candidates candidate) there with before | ⟨member, here⟩
    · rcases get_merge candidates candidate found key before with earlier | ⟨rfl, here⟩
      · exact Or.inl earlier
      · exact Or.inr ⟨List.mem_cons_self, here⟩
    · exact Or.inr ⟨List.mem_cons_of_mem candidate member, here⟩

theorem get_accepted (rows : List Dict) (key : String) (found : Candidate)
    (there : (accepted reader db rows).get key = some found) :
    (∃ source ∈ rows, candidateOf reader source = some found) ∧ found.positionKey = key ∧
      fits reader db found = true ∧ supersedes reader db found = true := by
  unfold accepted at there
  rw [get_remove, Option.filter_eq_some_iff, Bool.not_not, Bool.and_eq_true] at there
  obtain ⟨offered, fit, newer⟩ := there
  rcases get_candidates _ _ key found offered with before | ⟨member, here⟩
  · cases before
  · exact ⟨List.mem_filterMap.mp member, here.symm, fit, newer⟩

theorem get_publishClaims (rows : List Dict) (key : String) :
    (publishClaims reader db rows).claims.get key =
      ((accepted reader db rows).get key).elim (db.claims.get key)
        fun candidate => some (stored reader candidate) :=
  get_foldl (writeClaim reader) (fun _ _ candidate => some (stored reader candidate))
    (fun claims entry other => get_assign claims entry.1 other _) (accepted reader db rows)
    db.claims key

variable (action : Action)

theorem next_claims (key : String) (claim : Claim)
    (there : (next reader db action).claims.get key = some claim) :
    db.claims.get key = some claim ∨ Writes reader key claim db action := by
  cases action with
  | publishClaims rows =>
    change (publishClaims reader db rows).claims.get key = some claim at there
    rw [get_publishClaims] at there
    cases found : (accepted reader db rows).get key with
    | none =>
      rw [found] at there
      exact Or.inl there
    | some candidate =>
      rw [found] at there
      obtain ⟨⟨source, member, read⟩, here, fit, -⟩ := get_accepted reader db rows key candidate found
      exact Or.inr ⟨rows, source, candidate, rfl, member, read, here,
        (Option.some.inj there).symm, supported_of_fits reader db candidate fit⟩
  | apply queued changed => exact Or.inl there
  | publish key row settled => exact Or.inl there
  | header number block => exact Or.inl there
  | rollback ancestor replayed queued =>
    change (invalidateClaims db.claims ancestor (db.epoch + 1)).get key = some claim at there
    unfold invalidateClaims at there
    rw [get_remove, Option.filter_eq_some_iff] at there
    exact Or.inl there.1

theorem rollback_claims (ancestor : Int) (replayed : List (String × Option Position))
    (queued : List String) (key : String) (claim : Claim)
    (there : (rollback db ancestor replayed queued).claims.get key = some claim) :
    claim.epoch = (rollback db ancestor replayed queued).epoch ∧ claim.block ≤ ancestor := by
  change (invalidateClaims db.claims ancestor (db.epoch + 1)).get key = some claim at there
  unfold invalidateClaims at there
  rw [get_remove, Option.filter_eq_some_iff] at there
  have kept := there.2
  simp only [Bool.not_or, Bool.and_eq_true, Bool.not_eq_true', decide_eq_false_iff_not, not_not,
    not_lt] at kept
  exact ⟨kept.2, kept.1⟩

def Dated (db : Db) : Prop := ∀ key claim, db.claims.get key = some claim → claim.epoch = db.epoch

theorem next_epoch :
    (next reader db action).epoch = db.epoch ∨
      ∃ ancestor replayed queued, action = .rollback ancestor replayed queued ∧
        (next reader db action).epoch = db.epoch + 1 := by
  cases action with
  | publishClaims rows => exact Or.inl rfl
  | apply queued changed => exact Or.inl rfl
  | publish key row settled => exact Or.inl rfl
  | header number block => exact Or.inl rfl
  | rollback ancestor replayed queued =>
    exact Or.inr ⟨ancestor, replayed, queued, rfl, rfl⟩

theorem next_dated (dated : Dated db) :
    Dated (next reader db action) := by
  intro key claim there
  rcases next_epoch reader db action with same | ⟨ancestor, replayed, queued, rfl, -⟩
  · rw [same]
    rcases next_claims reader db action key claim there with before |
      ⟨rows, source, candidate, -, -, -, -, rfl, supported⟩
    · exact dated key claim before
    · exact supported.epoch
  · exact (rollback_claims db ancestor replayed queued key claim there).1

def Advances (key : String) (claim : Claim) (db : Db) : Prop :=
  claim.epoch < db.epoch ∨ ∃ later, db.claims.get key = some later ∧ claim.block ≤ later.block

theorem next_advances (key : String) (claim : Claim) (db : Db) (action : Action)
    (dated : Dated db) (bound : claim.epoch ≤ db.epoch) (advances : Advances key claim db) :
    Advances key claim (next reader db action) := by
  rcases next_epoch reader db action with same | ⟨ancestor, replayed, queued, -, ended⟩
  · rcases advances with ended | ⟨later, there, notBefore⟩
    · left
      rw [same]
      exact ended
    · right
      cases action with
      | publishClaims rows =>
        change ∃ last, (publishClaims reader db rows).claims.get key = some last ∧ _
        rw [get_publishClaims]
        cases found : (accepted reader db rows).get key with
        | none => exact ⟨later, there, notBefore⟩
        | some candidate =>
          obtain ⟨-, here, -, newer⟩ := get_accepted reader db rows key candidate found
          refine ⟨stored reader candidate, rfl, le_trans notBefore ?_⟩
          unfold supersedes at newer
          rw [here, there] at newer
          simp only [Option.all_some, Bool.and_eq_true, Bool.not_eq_true',
            Bool.and_eq_false_iff, decide_eq_false_iff_not, not_lt] at newer
          rcases newer.1 with other | notLater
          · exact absurd (dated key later there) other
          · exact notLater
      | apply queued changed => exact ⟨later, there, notBefore⟩
      | publish key row settled => exact ⟨later, there, notBefore⟩
      | header number block => exact ⟨later, there, notBefore⟩
      | rollback ancestor replayed queued => exact absurd same (by simp [next, rollback])
  · left
    rw [ended]
    exact Int.lt_add_one_of_le bound

theorem runs_advance (reached : (ledger reader).Reaches GuardedRuns.always db)
    (actions : List Action) (last : Db) (ran : (ledger reader).run db actions = some last)
    (key : String) (claim later : Claim) (before : db.claims.get key = some claim)
    (after : last.claims.get key = some later) (same : later.epoch = claim.epoch) :
    claim.block ≤ later.block := by
  have dated : Dated db := by
    refine reached.invariant Dated ?_ ?_
    · intro start empty key claim there
      rw [show start.claims = .empty from empty] at there
      cases there
    · intro db action after dated _ taken
      cases taken
      exact next_dated reader db action dated
  have kept := (ledger reader).keepsUntil
    (fun db => Dated db ∧ claim.epoch ≤ db.epoch ∧ Advances key claim db) (fun _ _ => False)
    (fun db action after taken held => by
      cases taken
      obtain ⟨dated, bound, advances⟩ := held
      refine Or.inl ⟨next_dated reader db action dated, ?_, ?_⟩
      · rcases next_epoch reader db action with same | ⟨_, _, _, _, ended⟩
        · rw [same]
          exact bound
        · rw [ended]
          exact le_of_lt (Int.lt_add_one_of_le bound)
      · exact next_advances reader key claim db action dated bound advances)
    db actions last ran
    ⟨dated, le_of_eq (dated key claim before), Or.inr ⟨claim, before, le_refl _⟩⟩
  rcases kept with ⟨dated, -, advances⟩ | ⟨_, _, _, _, _, _, impossible⟩
  · rcases advances with ended | ⟨found, there, notBefore⟩
    · rw [← same, dated key later after] at ended
      exact absurd ended (lt_irrefl _)
    · rw [after] at there
      cases there
      exact notBefore
  · cases impossible

/-- Every claim in the table was written, at a step of the run, for a position and a block that
were then as it names them; within an epoch the block of a position's claim does not fall; and a
rollback leaves no claim of an older epoch or above the ancestor. -/
theorem claims_supported (reader : Reader) (db : Db)
    (start : (ledger reader).start db) (actions : List Action) (last : Db)
    (ran : (ledger reader).run db actions = some last) :
    (∀ key claim, last.claims.get key = some claim →
      ∃ front action rest middle, actions = front ++ action :: rest ∧
        (ledger reader).run db front = some middle ∧ Writes reader key claim middle action) ∧
    (∀ more final, (ledger reader).run last more = some final → ∀ key claim later,
      last.claims.get key = some claim → final.claims.get key = some later →
      later.epoch = claim.epoch → claim.block ≤ later.block) ∧
    ∀ ancestor replayed queued key claim,
      (rollback last ancestor replayed queued).claims.get key = some claim →
      claim.epoch = (rollback last ancestor replayed queued).epoch ∧ claim.block ≤ ancestor := by
  refine ⟨?_, ?_, rollback_claims last⟩
  · intro key claim there
    have traced := (ledger reader).keepsUntil (fun db => db.claims.get key ≠ some claim)
      (Writes reader key claim)
      (fun db action after taken absent => by
        cases taken
        by_cases there : (next reader db action).claims.get key = some claim
        · rcases next_claims reader db action key claim there with before | writes
          · exact absurd before absent
          · exact Or.inr writes
        · exact Or.inl there)
      db actions last ran (by
        intro there
        rw [show db.claims = .empty from start] at there
        cases there)
    rcases traced with absent | written
    · exact absurd there absent
    · exact written
  · exact runs_advance reader last
      (.run db last actions (.start db start) (GuardedRuns.System.runMeets_always db actions) ran)

def sampleReader : Reader where
  casing := asciiCasing
  shown _ := ""
  finiteFloat _ := none
  digest text := if text = "{}" then "2afb9b83f9314e5d029766197f539792" else ""

def sampleRow : Dict :=
  [("position_key", .str "0xAB"), ("epoch", .int 0), ("block_number", .int 8),
    ("block_hash", .str "0x8"), ("timestamp", .int 80), ("position_last_block", .int 7),
    ("position_last_tx_index", .int 1), ("position_last_log_index", .int 2),
    ("liquidity", .str "5"), ("sqrt_price_x96", .str "100"), ("tick", .int 3),
    ("claim0", .str "4"), ("claim1", .int 0), ("position_pending_known", .int 0),
    ("position_state_json", .str "{}")]

def samplePosition : Position :=
  ⟨some "v3", some "0xab:1", ⟨7, 1, 2⟩, some "5", true, none, none, false, "{}"⟩

def sampleDb : Db where
  positions := OrderedTable.empty.put "0xab" samplePosition
  pending := []
  blocks := OrderedTable.empty.put 8 ⟨"0x8", 80⟩
  claims := .empty
  epoch := 0

example : ((next sampleReader sampleDb (.publishClaims [sampleRow])).claims.get "0xab").isSome := by
  decide

theorem claims_supported_sample :
    (∀ key claim, (next sampleReader sampleDb (.publishClaims [sampleRow])).claims.get key =
        some claim → ∃ front action rest middle,
      [Action.publishClaims [sampleRow]] = front ++ action :: rest ∧
        (ledger sampleReader).run sampleDb front = some middle ∧
        Writes sampleReader key claim middle action) ∧
    (∀ more final, (ledger sampleReader).run
        (next sampleReader sampleDb (.publishClaims [sampleRow])) more = some final →
      ∀ key claim later,
        (next sampleReader sampleDb (.publishClaims [sampleRow])).claims.get key = some claim →
        final.claims.get key = some later → later.epoch = claim.epoch →
        claim.block ≤ later.block) ∧
    ∀ ancestor replayed queued key claim,
      (rollback (next sampleReader sampleDb (.publishClaims [sampleRow])) ancestor replayed
        queued).claims.get key = some claim →
      claim.epoch = (rollback (next sampleReader sampleDb (.publishClaims [sampleRow])) ancestor
        replayed queued).epoch ∧ claim.block ≤ ancestor :=
  claims_supported sampleReader sampleDb rfl [.publishClaims [sampleRow]]
    (next sampleReader sampleDb (.publishClaims [sampleRow])) rfl

end RhPools.PublishedClaims
