import Mathlib.Data.Rat.Floor
import RhPools.LpGate
import RhPools.GuardedRuns

/-! Credentials of the holder gate: the sessions that sign-ins mint, the keys that
sessions mint, and everything that presents or revokes them. A digest names a secret;
nothing is assumed of it, as the table refuses a digest or an id it holds already. -/

namespace RhPools.GateCredentials
open TxChain GuardedRuns

abbrev Text := List Char

inductive Kind where
  | session
  | key
  deriving DecidableEq, Repr

inductive Via where
  | cookie
  | bearer
  deriving DecidableEq, Repr

def Kind.text : Kind → Text
  | .session => "session".toList
  | .key => "key".toList

def COOKIE_NAME : Text := "__Host-rhp_session".toList
def SECRET_PREFIX : Text := "rhp_".toList
def LAST_USED_STEP_S : Int := 60

structure Limits where
  sessionTtlS : Int
  keyTtlMaxS : Int
  keysPerWallet : Nat

structure Principal where
  wallet : Address
  keyId : Text
  label : Text
  via : Via
  kind : Kind
  expiresAt : Int
  deriving DecidableEq, Repr

structure Credential where
  keyHash : Text
  keyId : Text
  wallet : Address
  kind : Kind
  label : Text
  createdAt : Int
  expiresAt : Int
  revokedAt : Option Int
  lastUsedAt : Option Int
  deriving DecidableEq, Repr

def Credential.live (row : Credential) (now : Int) : Bool :=
  row.revokedAt.isNone && now < row.expiresAt

def Credential.principal (row : Credential) (via : Via) : Principal :=
  ⟨row.wallet, row.keyId, row.label, via, row.kind, row.expiresAt⟩

/-! ### The table `credential` -/

structure Credentials where
  rows : List Credential
  hashes : (rows.map Credential.keyHash).Nodup
  ids : (rows.map Credential.keyId).Nodup

def Credentials.empty : Credentials := ⟨[], List.nodup_nil, List.nodup_nil⟩

theorem concat_distinct (rows : List Credential) (key : Credential → Text) (row : Credential)
    (distinct : (rows.map key).Nodup) (new : key row ∉ rows.map key) :
    ((rows ++ [row]).map key).Nodup := by
  rw [List.map_append, List.map_singleton, ← List.concat_eq_append, List.nodup_concat]
  exact ⟨new, distinct⟩

def Credentials.insert (table : Credentials) (row : Credential) : Option Credentials :=
  if new : row.keyHash ∉ table.rows.map Credential.keyHash ∧
      row.keyId ∉ table.rows.map Credential.keyId then
    some ⟨table.rows ++ [row], concat_distinct _ _ _ table.hashes new.1,
      concat_distinct _ _ _ table.ids new.2⟩
  else none

structure Change where
  apply : Credential → Credential
  hash : ∀ row, (apply row).keyHash = row.keyHash
  id : ∀ row, (apply row).keyId = row.keyId

theorem map_apply (rows : List Credential) (change : Credential → Credential)
    (key : Credential → Text) (same : ∀ row, key (change row) = key row) :
    (rows.map change).map key = rows.map key := by
  rw [List.map_map]
  exact List.map_congr_left fun row _ => same row

def Credentials.update (table : Credentials) (change : Change) : Credentials :=
  ⟨table.rows.map change.apply, by rw [map_apply _ _ _ change.hash]; exact table.hashes,
    by rw [map_apply _ _ _ change.id]; exact table.ids⟩

/-- `SET revoked_at = ?` on the rows a condition picks that are not revoked. -/
def revoking (now : Int) (picks : Credential → Bool) : Change where
  apply row := if picks row && row.revokedAt.isNone then { row with revokedAt := some now } else row
  hash row := by split <;> rfl
  id row := by split <;> rfl

/-- `SET last_used_at = ?` on the row of an id. -/
def used (now : Int) (keyId : Text) : Change where
  apply row := if row.keyId = keyId then { row with lastUsedAt := some now } else row
  hash row := by split <;> rfl
  id row := by split <;> rfl

def Credentials.changed (table : Credentials) (picks : Credential → Bool) : Nat :=
  table.rows.countP fun row => picks row && row.revokedAt.isNone

def Credentials.findLive (table : Credentials) (now : Int) (is : Credential → Bool) :
    Option Credential :=
  table.rows.find? fun row => is row && row.live now

def Credentials.liveKeys (table : Credentials) (wallet : Address) (now : Int) : Nat :=
  table.rows.countP fun row => row.wallet = wallet && row.kind = .key && row.live now

structure Refusal where
  status : Nat
  error : String
  state : String
  deriving DecidableEq, Repr

inductive Outcome where
  | minted (principal : Principal) (secret : Text)
  | resolved (principal : Option Principal)
  | rechecked
  | revoked (changed : Nat)
  | refused (refusal : Refusal)
  | integrity
  deriving DecidableEq, Repr

/-- `int` of a clock: towards zero. -/
def seconds (clock : ℚ) : Int := if 0 ≤ clock then ⌊clock⌋ else ⌈clock⌉

variable (digest : Text → Text)

/-- The row `_mint` inserts; an empty label becomes the kind. -/
def minted (secret : Text) (wallet : Address) (kind : Kind) (label : Text) (ttlS now : Int) :
    Credential :=
  { keyHash := digest secret, keyId := (digest secret).take 16, wallet := wallet, kind := kind
    label := (if label = [] then kind.text else label).take 64
    createdAt := now, expiresAt := now + ttlS, revokedAt := none, lastUsedAt := none }

/-- `_mint`. -/
def mint (table : Credentials) (secret : Text) (wallet : Address) (kind : Kind) (label : Text)
    (ttlS now : Int) (via : Via) : Outcome × Credentials :=
  let row := minted digest secret wallet kind label ttlS now
  match table.insert row with
  | none => (.integrity, table)
  | some table => (.minted (row.principal via) secret, table)

/-- `mint_key`; `entitled` is the refusal of `_entitled`, if any, and `later` the clock that
`_mint` reads. -/
def mintKey (limits : Limits) (table : Credentials) (principal : Principal)
    (entitled : Option Refusal) (label secret : Text) (ttlS now later : Int) : Outcome × Credentials :=
  if principal.kind ≠ .session ∨ principal.via ≠ .cookie then
    (.refused ⟨403, "keys are minted from a browser session only", "forbidden"⟩, table)
  else match entitled with
    | some refusal => (.refused refusal, table)
    | none =>
      if limits.keysPerWallet ≤ table.liveKeys principal.wallet now then
        (.refused ⟨403, "key limit reached", "forbidden"⟩, table)
      else mint digest table secret principal.wallet .key label
        (max 60 (min ttlS limits.keyTtlMaxS)) later .bearer

/-- `_lookup`, with the row that records the use. -/
def lookup (table : Credentials) (secret : Text) (via : Via) (now : Int) :
    Option Principal × Credentials :=
  match table.findLive now fun row => row.keyHash = digest secret with
  | none => (none, table)
  | some row =>
    (some (row.principal via),
      if row.lastUsedAt.all fun last => LAST_USED_STEP_S ≤ now - last then
        table.update (used now row.keyId)
      else table)

/-- `partition`, without the separator. -/
def partition (separator : Char) (text : Text) : Text × Text :=
  (text.takeWhile (· ≠ separator), (text.dropWhile (· ≠ separator)).tail)

/-- What `strip` takes for white space. -/
def space (char : Char) : Bool :=
  let code := char.toNat
  (9 ≤ code && code ≤ 13) || (28 ≤ code && code ≤ 32) || code = 0x85 || code = 0xa0 ||
    code = 0x1680 || (0x2000 ≤ code && code ≤ 0x200a) || code = 0x2028 || code = 0x2029 ||
    code = 0x202f || code = 0x205f || code = 0x3000

def strip (text : Text) : Text :=
  ((text.dropWhile space).reverse.dropWhile space).reverse

/-- The two headers that carry credentials; one that is missing is empty. -/
structure Headers where
  authorization : Text
  cookie : Text

def cookieSecret (cookie : Text) : Option Text :=
  (cookie.splitOn ';').findSome? fun part =>
    let pair := partition '=' (strip part)
    if pair.1 = COOKIE_NAME ∧ SECRET_PREFIX <+: pair.2 then some pair.2 else none

def resolve (table : Credentials) (headers : Headers) (now : Int) : Outcome × Credentials :=
  let pair := partition ' ' headers.authorization
  let value := strip pair.2
  if pair.1.map Char.toLower = "bearer".toList ∧ SECRET_PREFIX <+: value then
    let found := lookup digest table value .bearer now
    match found.1 with
    | none => (.refused ⟨401, "credential invalid", "invalid"⟩, found.2)
    | some principal => (.resolved (some principal), found.2)
  else match cookieSecret headers.cookie with
    | none => (.resolved none, table)
    | some secret =>
      let found := lookup digest table secret .cookie now
      (.resolved found.1, found.2)

/-- `_lookup_id`. -/
def lookupId (table : Credentials) (keyId : Text) (now : Int) : Option Address :=
  (table.findLive now fun row => row.keyId = keyId).map Credential.wallet

def recheck (table : Credentials) (principal : Principal) (entitled : Option Refusal)
    (now : Int) : Outcome :=
  match lookupId table principal.keyId now, entitled with
  | none, _ => .refused ⟨401, "credential revoked", "revoked"⟩
  | some _, some refusal => .refused refusal
  | some _, none => .rechecked

/-- What `revoke` picks: an id, of any wallet or of one. -/
def ofId (keyId : Text) (wallet : Option Address) (row : Credential) : Bool :=
  row.keyId = keyId && wallet.all (row.wallet = ·)

def revoke (table : Credentials) (picks : Credential → Bool) (now : Int) : Outcome × Credentials :=
  (.revoked (table.changed picks), table.update (revoking now picks))

/-- The gate; `presented` records the principals its calls have returned. -/
structure World where
  clock : ℚ
  table : Credentials
  presented : List Principal

inductive Action where
  | tick (now : ℚ)
  /-- A sign-in that goes through; the secret is drawn. -/
  | signIn (wallet : Address) (label secret : Text)
  | mintKey (principal : Principal) (entitled : Option Refusal) (label secret : Text)
      (ttlS : Int) (later : ℚ)
  | revoke (keyId : Text) (wallet : Option Address)
  | revokeAll (wallet : Address)
  | resolve (headers : Headers)
  | recheck (principal : Principal) (entitled : Option Refusal)

def outcome (limits : Limits) (world : World) : Action → Outcome × Credentials
  | .tick _ => (.rechecked, world.table)
  | .signIn wallet label secret =>
    mint digest world.table secret wallet .session label limits.sessionTtlS
      (seconds world.clock) .cookie
  | .mintKey principal entitled label secret ttlS later =>
    mintKey digest limits world.table principal entitled label secret ttlS
      (seconds world.clock) (seconds later)
  | .revoke keyId wallet => revoke world.table (ofId keyId wallet) (seconds world.clock)
  | .revokeAll wallet => revoke world.table (·.wallet = wallet) (seconds world.clock)
  | .resolve headers => resolve digest world.table headers (seconds world.clock)
  | .recheck principal entitled =>
    (recheck world.table principal entitled (seconds world.clock), world.table)

def Outcome.principal : Outcome → Option Principal
  | .minted principal _ => some principal
  | .resolved principal => principal
  | _ => none

/-- The clock after an action; it does not go back, and only `mint_key` reads it twice. -/
def clockAfter (world : World) : Action → Option ℚ
  | .tick now => if world.clock ≤ now then some now else none
  | .mintKey principal _ _ _ _ later =>
    if world.clock ≤ later ∧ principal ∈ world.presented then some later else none
  | _ => some world.clock

/-- Operations one after the other. Keys are minted for principals the gate has returned. -/
def credentialRuns (limits : Limits) : System World Action where
  start world := ∃ clock, world = ⟨clock, .empty, []⟩
  step world action := (clockAfter world action).map fun clock =>
    let result := outcome digest limits world action
    ⟨clock, result.2, result.1.principal.toList ++ world.presented⟩

theorem seconds_mono (clock later : ℚ) (order : clock ≤ later) : seconds clock ≤ seconds later := by
  unfold seconds
  split <;> split
  · exact Int.floor_mono order
  · rename_i positive negative
    exact absurd (positive.trans order) negative
  · rename_i negative positive
    have below : ⌈clock⌉ ≤ 0 := Int.ceil_le.mpr (by simpa using (not_le.mp negative).le)
    exact below.trans (Int.floor_nonneg.mpr positive)
  · exact Int.ceil_mono order

theorem live_before (row : Credential) (now later : Int) (order : now ≤ later)
    (live : row.live later = true) : row.live now = true := by
  simp only [Credential.live, Bool.and_eq_true, decide_eq_true_eq] at live ⊢
  exact ⟨live.1, order.trans_lt live.2⟩

theorem insert_some (table next : Credentials) (row : Credential)
    (inserted : table.insert row = some next) :
    next.rows = table.rows ++ [row] ∧ row.keyHash ∉ table.rows.map Credential.keyHash ∧
      row.keyId ∉ table.rows.map Credential.keyId := by
  unfold Credentials.insert at inserted
  split at inserted
  · rename_i new
    obtain rfl := Option.some.inj inserted
    exact ⟨rfl, new.1, new.2⟩
  · cases inserted

theorem findLive_some (table : Credentials) (now : Int) (is : Credential → Bool)
    (row : Credential) (found : table.findLive now is = some row) :
    row ∈ table.rows ∧ is row = true ∧ row.live now = true := by
  have holds := List.find?_some found
  simp only [Bool.and_eq_true] at holds
  exact ⟨List.mem_of_find?_eq_some found, holds.1, holds.2⟩

theorem findLive_eq (table : Credentials) (now : Int) (is : Credential → Bool)
    (row : Credential) (member : row ∈ table.rows) (holds : is row = true)
    (alone : ∀ other ∈ table.rows, is other = true → other = row) :
    table.findLive now is = if row.live now then some row else none := by
  split
  · rename_i live
    cases found : table.findLive now is with
    | none =>
      have missed := List.find?_eq_none.mp found row member
      simp [holds, live] at missed
    | some other =>
      obtain ⟨inside, same, -⟩ := findLive_some table now is other found
      rw [alone other inside same]
  · rename_i dead
    refine List.find?_eq_none.mpr ?_
    intro other inside found
    simp only [Bool.and_eq_true] at found
    rw [alone other inside found.1] at found
    exact dead found.2

theorem findLive_none (table : Credentials) (now : Int) (is : Credential → Bool)
    (absent : ∀ row ∈ table.rows, is row = false) : table.findLive now is = none := by
  refine List.find?_eq_none.mpr ?_
  intro row member
  simp [absent row member]

def Credential.bare (row : Credential) : Credential := { row with lastUsedAt := none }

def Action.picks : Action → Credential → Bool
  | .revoke keyId wallet, row => ofId keyId wallet row
  | .revokeAll wallet, row => row.wallet = wallet
  | _, _ => false

inductive Effect (limits : Limits) (world : World) (action : Action) : Credentials → Prop
  | uses (change : Change) (still : ∀ row, (change.apply row).bare = row.bare) :
      Effect limits world action (world.table.update change)
  | revokes (now : Int) :
      Effect limits world action (world.table.update (revoking now action.picks))
  | session (wallet : Address) (label secret : Text) (next : Credentials)
      (signed : action = .signIn wallet label secret)
      (inserted : world.table.insert (minted digest secret wallet .session label
        limits.sessionTtlS (seconds world.clock)) = some next) : Effect limits world action next
  | key (principal : Principal) (label secret : Text) (ttlS : Int) (later : ℚ)
      (next : Credentials) (minting : action = .mintKey principal none label secret ttlS later)
      (cookie : principal.kind = .session ∧ principal.via = .cookie)
      (room : world.table.liveKeys principal.wallet (seconds world.clock) < limits.keysPerWallet)
      (inserted : world.table.insert (minted digest secret principal.wallet .key label
        (max 60 (min ttlS limits.keyTtlMaxS)) (seconds later)) = some next) :
      Effect limits world action next

def unchanged : Change := ⟨id, fun _ => rfl, fun _ => rfl⟩

theorem update_unchanged (table : Credentials) : table.update unchanged = table := by
  simp [Credentials.update, unchanged]

variable {digest}

variable (table : Credentials) (keyId : Text) (limits : Limits) (world : World) (action : Action)

theorem Effect.same :
    Effect digest limits world action world.table := by
  have still := @Effect.uses digest limits world action unchanged fun _ => rfl
  rwa [update_unchanged] at still

variable (secret : Text) (via : Via) (now : Int)

theorem used_bare (keyId : Text) (row : Credential) :
    ((used now keyId).apply row).bare = row.bare := by
  simp only [used]
  split <;> rfl

theorem lookup_effect :
    Effect digest limits world action (lookup digest world.table secret via now).2 := by
  unfold lookup
  split
  · exact .same limits world action
  · dsimp only
    split
    · exact .uses _ (used_bare now _)
    · exact .same limits world action

theorem outcome_effect :
    Effect digest limits world action (outcome digest limits world action).2 := by
  cases action with
  | tick now => exact .same limits world _
  | signIn wallet label secret =>
    simp only [outcome, mint]
    split
    · exact .same limits world _
    · rename_i next inserted
      exact .session wallet label secret next rfl inserted
  | mintKey principal entitled label secret ttlS later =>
    simp only [outcome, mintKey]
    split
    · exact .same limits world _
    rename_i cookie
    split
    · exact .same limits world _
    split
    · exact .same limits world _
    rename_i room
    simp only [mint]
    split
    · exact .same limits world _
    · rename_i next inserted
      exact .key principal label secret ttlS later next rfl (by simpa using cookie)
        (Nat.lt_of_not_le room) inserted
  | revoke keyId wallet => exact .revokes (seconds world.clock)
  | revokeAll wallet => exact .revokes (seconds world.clock)
  | resolve headers =>
    simp only [outcome, resolve]
    split
    · split <;> exact lookup_effect limits world _ _ _ _
    · split
      · exact .same limits world _
      · exact lookup_effect limits world _ _ _ _
  | recheck principal entitled => exact .same limits world _

theorem liveKeys_later (wallet : Address) (now later : Int) (order : now ≤ later) :
    table.liveKeys wallet later ≤ table.liveKeys wallet now := by
  refine List.countP_mono_left ?_
  intro row _ counted
  simp only [Bool.and_eq_true] at counted ⊢
  exact ⟨counted.1, live_before row now later order counted.2⟩

theorem liveKeys_update (change : Change) (wallet : Address) (now : Int)
    (kept : ∀ row, (change.apply row).wallet = row.wallet ∧ (change.apply row).kind = row.kind)
    (dies : ∀ row, (change.apply row).live now = true → row.live now = true) :
    (table.update change).liveKeys wallet now ≤ table.liveKeys wallet now := by
  simp only [Credentials.liveKeys, Credentials.update, List.countP_map]
  refine List.countP_mono_left ?_
  intro row _ counted
  simp only [Function.comp_apply, kept row, Bool.and_eq_true] at counted ⊢
  exact ⟨counted.1, dies row counted.2⟩

theorem bare_kept (row other : Credential) (same : row.bare = other.bare) :
    row.wallet = other.wallet ∧ row.kind = other.kind ∧ row.keyHash = other.keyHash ∧
      row.keyId = other.keyId ∧ row.live = other.live ∧ row.principal = other.principal := by
  simp only [Credential.bare, Credential.mk.injEq] at same
  obtain ⟨hash, id, wallet, kind, label, -, expires, revoked, -⟩ := same
  refine ⟨wallet, kind, hash, id, ?_, ?_⟩
  · funext now
    simp only [Credential.live, expires, revoked]
  · funext via
    simp only [Credential.principal, wallet, id, label, kind, expires]

theorem revoking_cases (picks : Credential → Bool) (row : Credential) :
    ((revoking now picks).apply row = row ∧ (picks row = false ∨ row.revokedAt.isSome = true)) ∨
      ((revoking now picks).apply row = { row with revokedAt := some now } ∧ picks row = true) := by
  by_cases picked : (picks row && row.revokedAt.isNone) = true
  · exact Or.inr ⟨if_pos picked, (Bool.and_eq_true_iff.mp picked).1⟩
  · refine Or.inl ⟨if_neg picked, ?_⟩
    rcases Bool.and_eq_false_iff.mp (Bool.eq_false_iff.mpr picked) with kept | revoked
    · exact Or.inl kept
    · exact Or.inr (Option.isNone_eq_false_iff.mp revoked)

theorem liveKeys_concat (table next : Credentials) (row : Credential) (wallet : Address)
    (now : Int) (inserted : table.insert row = some next) :
    next.liveKeys wallet now = table.liveKeys wallet now +
      if row.wallet = wallet ∧ row.kind = .key ∧ row.live now = true then 1 else 0 := by
  obtain ⟨rows, -, -⟩ := insert_some table next row inserted
  simp only [Credentials.liveKeys, rows, List.countP_append, List.countP_singleton]
  congr 1
  simp [and_assoc]

variable (row : Credential) (next : Credentials)

theorem liveKeys_kept (effect : Effect digest limits world action next) (now : Int)
    (later : seconds world.clock ≤ now)
    (few : ∀ wallet, world.table.liveKeys wallet now ≤ limits.keysPerWallet) (wallet : Address) :
    next.liveKeys wallet now ≤ limits.keysPerWallet := by
  cases effect with
  | uses change still =>
    refine (liveKeys_update world.table change wallet now ?_ ?_).trans (few wallet)
    · intro row
      obtain ⟨wallet, kind, -⟩ := bare_kept _ _ (still row)
      exact ⟨wallet, kind⟩
    · intro row live
      obtain ⟨-, -, -, -, same, -⟩ := bare_kept _ _ (still row)
      rwa [same] at live
  | revokes at_ =>
    refine (liveKeys_update world.table _ wallet now ?_ ?_).trans (few wallet)
    · intro row
      rcases revoking_cases at_ action.picks row with ⟨same, -⟩ | ⟨same, -⟩ <;> rw [same] <;>
        exact ⟨rfl, rfl⟩
    · intro row live
      rcases revoking_cases at_ action.picks row with ⟨same, -⟩ | ⟨same, -⟩
      · rwa [same] at live
      · simp [same, Credential.live] at live
  | session other label secret next signed inserted =>
    rw [liveKeys_concat _ _ _ wallet now inserted]
    simpa [minted] using few wallet
  | key principal label secret ttlS at_ next minting cookie room inserted =>
    rw [liveKeys_concat _ _ _ wallet now inserted]
    split
    · rename_i mine
      obtain ⟨rfl, -⟩ := mine
      exact (liveKeys_later world.table principal.wallet _ _ later).trans_lt room
    · exact few wallet

/-- What a row becomes: the same credential, which does not come to life. -/
structure Follows (row next : Credential) : Prop where
  hash : next.keyHash = row.keyHash
  id : next.keyId = row.keyId
  wallet : next.wallet = row.wallet
  kind : next.kind = row.kind
  dies : ∀ now, next.live now = true → row.live now = true

theorem Follows.refl : Follows row row := ⟨rfl, rfl, rfl, rfl, fun _ live => live⟩

theorem Follows.trans (row middle next : Credential) (before : Follows row middle)
    (after : Follows middle next) : Follows row next :=
  ⟨after.hash.trans before.hash, after.id.trans before.id, after.wallet.trans before.wallet,
    after.kind.trans before.kind, fun now live => before.dies now (after.dies now live)⟩

theorem follows_bare (row next : Credential) (same : next.bare = row.bare) : Follows row next := by
  obtain ⟨wallet, kind, hash, id, live, -⟩ := bare_kept _ _ same
  exact ⟨hash, id, wallet, kind, fun now => by rw [live]; exact fun alive => alive⟩

theorem follows_revoking (picks : Credential → Bool) (row : Credential) :
    Follows row ((revoking now picks).apply row) := by
  rcases revoking_cases now picks row with ⟨same, -⟩ | ⟨same, -⟩
  · rw [same]
    exact .refl row
  · rw [same]
    exact ⟨rfl, rfl, rfl, rfl, fun _ live => by simp [Credential.live] at live⟩

theorem effect_follows (effect : Effect digest limits world action next) (row : Credential)
    (member : row ∈ world.table.rows) : ∃ after ∈ next.rows, Follows row after := by
  cases effect with
  | uses change still =>
    exact ⟨_, List.mem_map_of_mem member, follows_bare _ _ (still row)⟩
  | revokes now => exact ⟨_, List.mem_map_of_mem member, follows_revoking now _ row⟩
  | session wallet label secret next signed inserted =>
    obtain ⟨rows, -, -⟩ := insert_some _ _ _ inserted
    exact ⟨row, by rw [rows]; exact List.mem_append_left _ member, .refl row⟩
  | key principal label secret ttlS later next minting cookie room inserted =>
    obtain ⟨rows, -, -⟩ := insert_some _ _ _ inserted
    exact ⟨row, by rw [rows]; exact List.mem_append_left _ member, .refl row⟩

inductive Mints (limits : Limits) (world : World) : Action → Credential → Prop
  | session (wallet : Address) (label secret : Text) :
      Mints limits world (.signIn wallet label secret)
        (minted digest secret wallet .session label limits.sessionTtlS (seconds world.clock))
  | key (principal : Principal) (label secret : Text) (ttlS : Int) (later : ℚ)
      (cookie : principal.kind = .session ∧ principal.via = .cookie) :
      Mints limits world (.mintKey principal none label secret ttlS later)
        (minted digest secret principal.wallet .key label (max 60 (min ttlS limits.keyTtlMaxS))
          (seconds later))

theorem effect_origin (effect : Effect digest limits world action next) (after : Credential)
    (member : after ∈ next.rows) :
    (∃ row ∈ world.table.rows, Follows row after ∧
      (action.picks row = false → after.bare = row.bare)) ∨
    (@Mints digest limits world action after ∧
      after.keyHash ∉ world.table.rows.map Credential.keyHash ∧
      after.keyId ∉ world.table.rows.map Credential.keyId) := by
  cases effect with
  | uses change still =>
    obtain ⟨row, inside, rfl⟩ := List.mem_map.mp member
    exact Or.inl ⟨row, inside, follows_bare _ _ (still row), fun _ => still row⟩
  | revokes now =>
    obtain ⟨row, inside, rfl⟩ := List.mem_map.mp member
    refine Or.inl ⟨row, inside, follows_revoking now _ row, fun kept => ?_⟩
    rcases revoking_cases now action.picks row with ⟨same, -⟩ | ⟨-, picked⟩
    · rw [same]
    · rw [kept] at picked
      cases picked
  | session wallet label secret next signed inserted =>
    obtain ⟨rows, hash, id⟩ := insert_some _ _ _ inserted
    rw [rows, List.mem_append, List.mem_singleton] at member
    rcases member with old | rfl
    · exact Or.inl ⟨after, old, .refl after, fun _ => rfl⟩
    · exact Or.inr ⟨signed ▸ .session wallet label secret, hash, id⟩
  | key principal label secret ttlS later next minting cookie room inserted =>
    obtain ⟨rows, hash, id⟩ := insert_some _ _ _ inserted
    rw [rows, List.mem_append, List.mem_singleton] at member
    rcases member with old | rfl
    · exact Or.inl ⟨after, old, .refl after, fun _ => rfl⟩
    · exact Or.inr ⟨minting ▸ .key principal label secret ttlS later cookie, hash, id⟩

def StandsFor (table : Credentials) (principal : Principal) : Prop :=
  ∃ row ∈ table.rows, row.keyId = principal.keyId ∧ row.wallet = principal.wallet ∧
    row.kind = principal.kind

theorem StandsFor.follows (table next : Credentials) (principal : Principal)
    (stands : StandsFor table principal)
    (kept : ∀ row ∈ table.rows, ∃ after ∈ next.rows, Follows row after) :
    StandsFor next principal := by
  obtain ⟨row, member, id, wallet, kind⟩ := stands
  obtain ⟨after, inside, follows⟩ := kept row member
  exact ⟨after, inside, follows.id.trans id, follows.wallet.trans wallet, follows.kind.trans kind⟩

theorem lookup_stands (principal : Principal)
    (found : (lookup digest table secret via now).1 = some principal) :
    StandsFor table principal := by
  unfold lookup at found
  split at found
  · cases found
  · rename_i row there
    obtain rfl := Option.some.inj found
    exact ⟨row, (findLive_some _ _ _ _ there).1, rfl, rfl, rfl⟩

theorem mint_stands (wallet : Address) (kind : Kind) (label : Text) (ttlS now : Int) (via : Via)
    (principal : Principal)
    (found : (mint digest table secret wallet kind label ttlS now via).1.principal = some principal)
    :
    StandsFor (mint digest table secret wallet kind label ttlS now via).2 principal := by
  unfold mint at found ⊢
  dsimp only at found ⊢
  split at found
  · cases found
  · rename_i next inserted
    obtain rfl := Option.some.inj found
    obtain ⟨rows, -, -⟩ := insert_some _ _ _ inserted
    exact ⟨_, by rw [rows]; exact List.mem_append_right _ List.mem_cons_self, rfl, rfl, rfl⟩

theorem resolve_found (headers : Headers) (now : Int) (principal : Principal)
    (found : (resolve digest table headers now).1.principal = some principal) :
    ∃ secret via, (lookup digest table secret via now).1 = some principal := by
  unfold resolve at found
  dsimp only at found
  split at found
  · split at found
    · cases found
    · rename_i other there
      obtain rfl := Option.some.inj found
      exact ⟨_, _, there⟩
  · split at found
    · cases found
    · exact ⟨_, .cookie, found⟩

theorem outcome_stands (principal : Principal)
    (found : (outcome digest limits world action).1.principal = some principal) :
    StandsFor (outcome digest limits world action).2 principal := by
  cases action with
  | signIn wallet label secret => exact mint_stands _ _ _ _ _ _ _ _ _ found
  | mintKey other entitled label secret ttlS later =>
    simp only [outcome, mintKey] at found ⊢
    split at found
    · cases found
    split at found
    · cases found
    split at found
    · cases found
    · rename_i cookie _ room
      simp only [cookie, ↓reduceIte, room]
      exact mint_stands _ _ _ _ _ _ _ _ _ found
  | resolve headers =>
    obtain ⟨secret, via, there⟩ := resolve_found _ _ _ _ found
    exact (lookup_stands _ _ _ _ _ there).follows _ _ _
      (effect_follows limits world _ _ (outcome_effect limits world (.resolve headers)))
  | tick | revoke | revokeAll => cases found
  | recheck other entitled =>
    simp only [outcome, recheck] at found
    split at found <;> cases found

theorem same_row (key : Credential → Text) (distinct : (table.rows.map key).Nodup)
    (row other : Credential) (member : row ∈ table.rows) (inside : other ∈ table.rows)
    (same : key other = key row) : other = row :=
  List.inj_on_of_nodup_map distinct inside member same

theorem lookup_eq (member : row ∈ table.rows) (hash : row.keyHash = digest secret) :
    (lookup digest table secret via now).1 =
      if row.live now then some (row.principal via) else none := by
  have found := findLive_eq table now (fun other => other.keyHash = digest secret) row member
    (by simpa using hash) fun other inside same =>
      same_row table _ table.hashes row other member inside
        ((of_decide_eq_true same).trans hash.symm)
  unfold lookup
  rw [found]
  by_cases live : row.live now = true <;> simp [live]

theorem lookup_absent (absent : ∀ row ∈ table.rows, row.keyHash ≠ digest secret) :
    (lookup digest table secret via now).1 = none := by
  have missing := findLive_none table now (fun row => row.keyHash = digest secret)
    fun row member => decide_eq_false (absent row member)
  unfold lookup
  rw [missing]

theorem lookupId_eq (member : row ∈ table.rows) (id : row.keyId = keyId) :
    lookupId table keyId now = if row.live now then some row.wallet else none := by
  have found := findLive_eq table now (fun other => other.keyId = keyId) row member
    (by simpa using id) fun other inside same =>
      same_row table _ table.ids row other member inside ((of_decide_eq_true same).trans id.symm)
  unfold lookupId
  rw [found]
  by_cases live : row.live now = true <;> simp [live]

theorem lookupId_absent (absent : ∀ row ∈ table.rows, row.keyId ≠ keyId) :
    lookupId table keyId now = none := by
  have missing := findLive_none table now (fun row => row.keyId = keyId)
    fun row member => decide_eq_false (absent row member)
  unfold lookupId
  rw [missing]
  rfl

def Touches (digest : Text → Text) (limits : Limits) (world : World) (action : Action)
    (row : Credential) : Prop :=
  action.picks row = true ∨ @Mints digest limits world action row

theorem effect_keeps (effect : Effect digest limits world action next) (row : Credential)
    (member : row ∈ world.table.rows) (kept : action.picks row = false) :
    ∃ after ∈ next.rows, after.bare = row.bare := by
  obtain ⟨after, inside, follows⟩ := effect_follows limits world action next effect row member
  rcases effect_origin limits world action next effect after inside with
    ⟨other, there, before, same⟩ | ⟨-, -, new⟩
  · have twin : other = row := same_row world.table _ world.table.ids row other member there
      (before.id.symm.trans follows.id)
    subst twin
    exact ⟨after, inside, same kept⟩
  · exact absurd (follows.id ▸ List.mem_map_of_mem member) new

theorem lookup_kept (effect : Effect digest limits world action next) (secret : Text) (via : Via)
    (now : Int)
    (apart : ∀ row ∈ world.table.rows ++ next.rows, row.keyHash = digest secret →
      ¬Touches digest limits world action row) :
    (lookup digest next secret via now).1 = (lookup digest world.table secret via now).1 := by
  by_cases there : ∃ row ∈ world.table.rows, row.keyHash = digest secret
  · obtain ⟨row, member, hash⟩ := there
    have kept := (not_or.mp (apart row (List.mem_append_left _ member) hash)).1
    obtain ⟨after, inside, same⟩ := effect_keeps limits world action next effect row member
      (by simpa using kept)
    obtain ⟨-, -, hashes, -, live, principal⟩ := bare_kept _ _ same
    rw [lookup_eq next secret via now after inside (hashes.trans hash),
      lookup_eq world.table secret via now row member hash, live, principal]
  · have before : ∀ row ∈ world.table.rows, row.keyHash ≠ digest secret :=
      fun row member hash => there ⟨row, member, hash⟩
    rw [lookup_absent world.table secret via now before]
    refine lookup_absent next secret via now ?_
    intro after inside hash
    rcases effect_origin limits world action next effect after inside with
      ⟨row, member, follows, -⟩ | ⟨mints, -⟩
    · exact before row member (follows.hash.symm.trans hash)
    · exact apart after (List.mem_append_right _ inside) hash (Or.inr mints)

theorem lookupId_kept (effect : Effect digest limits world action next) (keyId : Text) (now : Int)
    (apart : ∀ row ∈ world.table.rows ++ next.rows, row.keyId = keyId →
      ¬Touches digest limits world action row) :
    lookupId next keyId now = lookupId world.table keyId now := by
  by_cases there : ∃ row ∈ world.table.rows, row.keyId = keyId
  · obtain ⟨row, member, id⟩ := there
    have kept := (not_or.mp (apart row (List.mem_append_left _ member) id)).1
    obtain ⟨after, inside, same⟩ := effect_keeps limits world action next effect row member
      (by simpa using kept)
    obtain ⟨wallet, -, -, ids, live, -⟩ := bare_kept _ _ same
    rw [lookupId_eq next keyId now after inside (ids.trans id),
      lookupId_eq world.table keyId now row member id, live, wallet]
  · have before : ∀ row ∈ world.table.rows, row.keyId ≠ keyId :=
      fun row member id => there ⟨row, member, id⟩
    rw [lookupId_absent world.table keyId now before]
    refine lookupId_absent next keyId now ?_
    intro after inside id
    rcases effect_origin limits world action next effect after inside with
      ⟨row, member, follows, -⟩ | ⟨mints, -⟩
    · exact before row member (follows.id.symm.trans id)
    · exact apart after (List.mem_append_right _ inside) id (Or.inr mints)

structure Sound (limits : Limits) (world : World) : Prop where
  cap : ∀ wallet, world.table.liveKeys wallet (seconds world.clock) ≤ limits.keysPerWallet
  presented : ∀ principal ∈ world.presented, StandsFor world.table principal

theorem clockAfter_le (clock : ℚ) (after : clockAfter world action = some clock) :
    world.clock ≤ clock := by
  unfold clockAfter at after
  split at after
  · split at after
    · rename_i later
      exact later.trans_eq (Option.some.inj after)
    · cases after
  · split at after
    · rename_i later
      exact later.1.trans_eq (Option.some.inj after)
    · cases after
  · exact (Option.some.inj after).le

theorem step_cases (world next : World) (action : Action)
    (taken : (credentialRuns digest limits).step world action = some next) :
    world.clock ≤ next.clock ∧ Effect digest limits world action next.table ∧
      next.table = (outcome digest limits world action).2 ∧
      next.presented = (outcome digest limits world action).1.principal.toList ++
        world.presented := by
  obtain ⟨clock, after, rfl⟩ := Option.map_eq_some_iff.mp taken
  exact ⟨clockAfter_le world action clock after, outcome_effect limits world action, rfl, rfl⟩

theorem step_sound (world next : World) (action : Action) (sound : Sound limits world)
    (taken : (credentialRuns digest limits).step world action = some next) :
    Sound limits next := by
  obtain ⟨later, effect, table, presented⟩ := step_cases limits world next action taken
  have order := seconds_mono _ _ later
  refine ⟨?_, ?_⟩
  · exact liveKeys_kept limits world action next.table effect _ order
      fun wallet => (liveKeys_later _ _ _ _ order).trans (sound.cap wallet)
  · intro principal member
    rw [presented, List.mem_append] at member
    rcases member with new | old
    · rw [table]
      exact outcome_stands limits world action principal (Option.mem_toList.mp new)
    · exact (sound.presented principal old).follows _ _ _
        (effect_follows limits world action _ effect)

theorem reached_sound (reached : (credentialRuns digest limits).Reaches always world) :
    Sound limits world := by
  refine System.Reaches.invariant (Sound limits) ?_ ?_ world reached
  · rintro _ ⟨clock, rfl⟩
    exact ⟨fun wallet => Nat.zero_le _, fun principal member => by cases member⟩
  · intro world action next sound _ taken
    exact step_sound limits world next action sound taken

theorem since_follows (world later : World)
    (reached : ((credentialRuns digest limits).since world).Reaches always later) :
    world.clock ≤ later.clock ∧
      ∀ row ∈ world.table.rows, ∃ after ∈ later.table.rows, Follows row after := by
  refine System.Reaches.invariant (fun later => world.clock ≤ later.clock ∧
    ∀ row ∈ world.table.rows, ∃ after ∈ later.table.rows, Follows row after) ?_ ?_ later reached
  · rintro _ rfl
    exact ⟨le_refl _, fun row member => ⟨row, member, .refl row⟩⟩
  · rintro middle action next ⟨order, kept⟩ _ taken
    obtain ⟨more, effect, -⟩ := step_cases limits middle next action taken
    refine ⟨order.trans more, ?_⟩
    intro row member
    obtain ⟨after, inside, follows⟩ := kept row member
    obtain ⟨last, there, further⟩ := effect_follows limits middle action _ effect after inside
    exact ⟨last, there, follows.trans _ _ _ further⟩

/-- Credentials of a gate: never more live keys of a wallet than allowed; a key is added only
for the principal of a session that a cookie has presented; what is revoked or expired is
not returned again; and an operation changes the outcome of no credential but its own. -/
structure Lifecycle (digest : Text → Text) (limits : Limits) (world : World) : Prop where
  cap : ∀ wallet now, seconds world.clock ≤ now →
    world.table.liveKeys wallet now ≤ limits.keysPerWallet
  adds : ∀ action next, (credentialRuns digest limits).step world action = some next →
    ∀ key ∈ next.table.rows, key.kind = .key →
      key.keyId ∉ world.table.rows.map Credential.keyId →
      ∃ principal label secret ttlS later,
        action = .mintKey principal none label secret ttlS later ∧
        principal ∈ world.presented ∧ principal.kind = .session ∧ principal.via = .cookie ∧
        ∃ session ∈ world.table.rows, session.keyId = principal.keyId ∧
          session.kind = .session ∧ session.wallet = key.wallet
  ends : ∀ later, ((credentialRuns digest limits).since world).Reaches always later →
    ∀ row ∈ world.table.rows, row.live (seconds world.clock) = false →
      (∀ headers principal, (resolve digest later.table headers (seconds later.clock)).1.principal =
        some principal → principal.keyId ≠ row.keyId) ∧
      ∀ principal entitled, principal.keyId = row.keyId →
        recheck later.table principal entitled (seconds later.clock) =
          .refused ⟨401, "credential revoked", "revoked"⟩
  others : ∀ action next, (credentialRuns digest limits).step world action = some next →
    (∀ secret via now, (∀ row ∈ world.table.rows ++ next.table.rows,
        row.keyHash = digest secret → ¬Touches digest limits world action row) →
      (lookup digest next.table secret via now).1 =
        (lookup digest world.table secret via now).1) ∧
    ∀ keyId now, (∀ row ∈ world.table.rows ++ next.table.rows,
        row.keyId = keyId → ¬Touches digest limits world action row) →
      lookupId next.table keyId now = lookupId world.table keyId now

theorem dead_later (world later : World)
    (reached : ((credentialRuns digest limits).since world).Reaches always later) (row : Credential)
    (member : row ∈ world.table.rows) (dead : row.live (seconds world.clock) = false) :
    ∃ after ∈ later.table.rows, after.keyId = row.keyId ∧
      after.live (seconds later.clock) = false := by
  obtain ⟨order, kept⟩ := since_follows limits world later reached
  obtain ⟨after, inside, follows⟩ := kept row member
  refine ⟨after, inside, follows.id, ?_⟩
  by_contra alive
  have before := live_before row _ _ (seconds_mono _ _ order)
    (follows.dies _ (Bool.not_eq_false _ ▸ alive))
  rw [dead] at before
  cases before

theorem credentials_hold (digest : Text → Text) (limits : Limits) (world : World)
    (reached : (credentialRuns digest limits).Reaches always world) :
    Lifecycle digest limits world := by
  have sound := reached_sound limits world reached
  refine ⟨?_, ?_, ?_, ?_⟩
  · intro wallet now later
    exact (liveKeys_later _ _ _ _ later).trans (sound.cap wallet)
  · intro action next taken key member kind new
    obtain ⟨-, effect, -⟩ := step_cases limits world next action taken
    rcases effect_origin limits world action _ effect key member with
      ⟨row, inside, follows, -⟩ | ⟨mints, -⟩
    · exact absurd (follows.id ▸ List.mem_map_of_mem inside) new
    · cases mints with
      | session wallet label secret => cases kind
      | key principal label secret ttlS later cookie =>
        obtain ⟨clock, after, -⟩ := Option.map_eq_some_iff.mp taken
        have given : principal ∈ world.presented := by
          simp only [clockAfter] at after
          split at after
          · rename_i allowed
            exact allowed.2
          · cases after
        obtain ⟨session, inside, id, wallet, same⟩ := sound.presented principal given
        exact ⟨principal, label, secret, ttlS, later, rfl, given, cookie.1, cookie.2, session,
          inside, id, same.trans cookie.1, wallet⟩
  · intro later onwards row member dead
    obtain ⟨after, inside, id, gone⟩ := dead_later limits world later onwards row member dead
    have missing := lookupId_eq later.table row.keyId (seconds later.clock) after inside id
    rw [gone] at missing
    refine ⟨?_, ?_⟩
    · intro headers principal found same
      obtain ⟨secret, via, there⟩ := resolve_found _ _ _ _ found
      unfold lookup at there
      split at there
      · cases there
      · rename_i other live
        obtain ⟨stored, -, alive⟩ := findLive_some _ _ _ _ live
        obtain rfl := Option.some.inj there
        have twin := same_row later.table _ later.table.ids after other inside stored
          (same.trans id.symm)
        rw [twin, gone] at alive
        cases alive
    · intro principal entitled same
      simp only [recheck, same, missing]
      rfl
  · intro action next taken
    obtain ⟨-, effect, -⟩ := step_cases limits world next action taken
    exact ⟨fun secret via now apart => lookup_kept limits world action _ effect secret via now apart,
      fun keyId now apart => lookupId_kept limits world action _ effect keyId now apart⟩

def sampleSession : Text := "rhp_session".toList
def sampleKey : Text := "rhp_key".toList

def sampleDigest (secret : Text) : Text :=
  if secret = sampleSession then
    "987bf0c678bb097c5a22b281870d19c8c0f0e43e176598c912ed428457a4bddc".toList
  else "61f00c378a0716f5091c973723ff43d3eb7463c83d44ed20b1e6020f02838b86".toList

def sampleLimits : Limits := ⟨7 * 86400, 365 * 86400, 1⟩

def sampleHeaders : Headers :=
  ⟨[], "other=1; __Host-rhp_session=rhp_session".toList⟩

def samplePrincipal : Principal :=
  ⟨9, (sampleDigest sampleSession).take 16, "session".toList, .cookie, .session, 604800⟩

def sampleTurns : List Action :=
  [.signIn 9 [] sampleSession, .resolve sampleHeaders,
    .mintKey samplePrincipal none [] sampleKey 3600 1, .mintKey samplePrincipal none [] [] 60 2,
    .revoke ((sampleDigest sampleKey).take 16) (some 9)]

theorem sampleTurns_taken :
    ((credentialRuns sampleDigest sampleLimits).run ⟨0, .empty, []⟩ sampleTurns).isSome := by
  decide

def sampleWorld : World :=
  ((credentialRuns sampleDigest sampleLimits).run ⟨0, .empty, []⟩ sampleTurns).get sampleTurns_taken

/-- The revoked key is refused from now on, in every later state. -/
theorem credentials_hold_sample :
    (sampleWorld.table.rows.map fun row => (row.kind, row.live 2)) =
      [(.session, true), (.key, false)] ∧
    ∀ later, ((credentialRuns sampleDigest sampleLimits).since sampleWorld).Reaches always later →
      ∀ principal entitled, principal.keyId = (sampleDigest sampleKey).take 16 →
        recheck later.table principal entitled (seconds later.clock) =
          .refused ⟨401, "credential revoked", "revoked"⟩ := by
  have reached : (credentialRuns sampleDigest sampleLimits).Reaches always sampleWorld :=
    System.Reaches.run _ _ sampleTurns (.start _ ⟨0, rfl⟩) (System.runMeets_always _ _)
      (Option.some_get _).symm
  have held := credentials_hold sampleDigest sampleLimits sampleWorld reached
  refine ⟨by decide +kernel, ?_⟩
  intro later onwards principal entitled same
  have there : ∃ row ∈ sampleWorld.table.rows, row.keyId = (sampleDigest sampleKey).take 16 ∧
      row.live (seconds sampleWorld.clock) = false := by decide +kernel
  obtain ⟨row, member, id, dead⟩ := there
  exact (held.ends later onwards row member dead).2 principal entitled (same.trans id.symm)

end RhPools.GateCredentials
