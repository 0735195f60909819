import RhPools.TraceUpdates
import RhPools.PyValues

/-! `resolve_v4_tick_spacing`. A PoolKey whose spacing is not known is searched: the spacings
that other pools of its fee and hook had come first, then all of them, through one buffer whose
two low spacing bytes are patched. The search is memoised, and both tables drop what is oldest. -/

namespace RhPools.SpacingHints
open BigEndian TxChain EventWords OrderedTables PyValues TraceUpdates

def HINT_LIMIT : Nat := 32768
def MEMO_SIZE : Nat := 32768
def MAX_TICK_SPACING : Nat := 32767
def DYNAMIC_FEE : Nat := 0x800000

/-- The arguments of `resolve_v4_tick_spacing`; of the texts, what `str` makes of them. -/
structure Arguments where
  poolId : String
  currency0 : String
  currency1 : String
  fee : Value
  hooks : String
  tickSpacing : Value

/-- The arguments of `_resolve_v4_tick_spacing_cached`. -/
structure Key where
  poolId : Hash
  currency0 : Address
  currency1 : Address
  fee : Nat
  hooks : Address
  deriving DecidableEq

/-- `True` is an integer in Python, and no fee. -/
def readFee : Value → Option Nat
  | .int fee =>
    if 0 ≤ fee ∧ fee < 2 ^ 24 ∧ (fee ≤ 1000000 ∨ fee = DYNAMIC_FEE) then some fee.toNat else none
  | _ => none

def readSpacing : Value → Option (Option Nat)
  | .none => some none
  | .int spacing => if 0 < spacing ∧ spacing ≤ MAX_TICK_SPACING then some spacing.toNat else none
  | _ => none

/-- The checks at the head of the function. Texts of one length compare as the numbers that
they write. -/
def Arguments.check (arguments : Arguments) : Option (Key × Option Nat) := do
  let poolId ← hexText 64 arguments.poolId
  let currency0 ← hexText 40 arguments.currency0
  let currency1 ← hexText 40 arguments.currency1
  let hooks ← hexText 40 arguments.hooks
  if currency1 ≤ currency0 then none
  let fee ← readFee arguments.fee
  let tickSpacing ← readSpacing arguments.tickSpacing
  return ({ poolId := BitVec.ofNat 256 poolId, currency0 := BitVec.ofNat 160 currency0
            currency1 := BitVec.ofNat 160 currency1, fee := fee
            hooks := BitVec.ofNat 160 hooks }, tickSpacing)

abbrev Hints := OrderedTable (Nat × Address) (List Nat)

def rememberSpacing (hints : Hints) (fee : Nat) (hooks : Address) (spacing : Nat) : Hints :=
  let key := (fee, hooks)
  let current := (hints.get key).getD []
  let learned := if spacing ∉ current then hints.assign key (current ++ [spacing]) else hints
  (learned.touch key).trim HINT_LIMIT

def knownSpacings (hints : Hints) (fee : Nat) (hooks : Address) : List Nat × Hints :=
  let key := (fee, hooks)
  let known := (hints.get key).getD []
  (known, if known ≠ [] then hints.touch key else hints)

def Key.encoded (key : Key) : Bytes :=
  toBytes 32 key.currency0.toNat ++ toBytes 32 key.currency1.toNat ++ toBytes 32 key.fee ++
    toBytes 32 0 ++ toBytes 32 key.hooks.toNat

def patch (encoded : Bytes) (candidate : Nat) : Bytes :=
  (encoded.set 126 (UInt8.ofNat (candidate >>> 8))).set 127 (UInt8.ofNat (candidate &&& 255))

def firstMatch (eth : Eth) (expected : Hash) : Bytes → List Nat → Option Nat × Bytes
  | encoded, [] => (none, encoded)
  | encoded, candidate :: rest =>
    let patched := patch encoded candidate
    if eth.keccak patched = expected then (some candidate, patched)
    else firstMatch eth expected patched rest

/-- `_resolve_v4_tick_spacing_cached`, without its cache. -/
def searchSpacing (eth : Eth) (key : Key) (hints : Hints) : Option Nat × Hints :=
  let known := knownSpacings hints key.fee key.hooks
  let hinted := firstMatch eth key.poolId key.encoded known.1
  match hinted.1 with
  | some candidate => (some candidate, known.2)
  | none =>
    match (firstMatch eth key.poolId hinted.2 (List.range' 1 MAX_TICK_SPACING)).1 with
    | some candidate => (some candidate, rememberSpacing known.2 key.fee key.hooks candidate)
    | none => (none, known.2)

structure Tables where
  hints : Hints
  memo : OrderedTable Key (Option Nat)

def Tables.fresh : Tables := ⟨.empty, .empty⟩

def Key.Matches (eth : Eth) (key : Key) (spacing : Nat) : Prop :=
  v4PoolId eth key.currency0 key.currency1 key.fee spacing key.hooks = key.poolId

instance (eth : Eth) (key : Key) (spacing : Nat) : Decidable (key.Matches eth spacing) :=
  inferInstanceAs (Decidable (_ = _))

def resolveSpacing (eth : Eth) (tables : Tables) (arguments : Arguments) : Option Nat × Tables :=
  match arguments.check with
  | none => (none, tables)
  | some (key, some spacing) =>
    if key.Matches eth spacing then
      (some spacing,
        { tables with hints := rememberSpacing tables.hints key.fee key.hooks spacing })
    else (none, tables)
  | some (key, none) =>
    let call := tables.memo.cached MEMO_SIZE key (searchSpacing eth key) tables.hints
    (call.1, { hints := call.2.2, memo := call.2.1 })

def resolveAll (eth : Eth) : Tables → List Arguments → List (Option Nat)
  | _, [] => []
  | tables, arguments :: rest =>
    let call := resolveSpacing eth tables arguments
    call.1 :: resolveAll eth call.2 rest

def Key.search (eth : Eth) (key : Key) : Option Nat :=
  (List.range' 1 MAX_TICK_SPACING).find? fun spacing => key.Matches eth spacing

def plainSearch (eth : Eth) (arguments : Arguments) : Option Nat :=
  match arguments.check with
  | none => none
  | some (key, some spacing) => if key.Matches eth spacing then some spacing else none
  | some (key, none) => key.search eth

/-- Arguments that name a pool, and a spacing of it that they do not contradict. -/
def Verified (eth : Eth) (arguments : Arguments) (spacing : Nat) : Prop :=
  ∃ key supplied, arguments.check = some (key, supplied) ∧ (∀ other ∈ supplied, other = spacing) ∧
    spacing ∈ Set.Icc 1 MAX_TICK_SPACING ∧ key.Matches eth spacing

def CollisionFree (eth : Eth) : Prop :=
  ∀ (currency0 currency1 : Address) (fee : Nat) (hooks : Address),
    Set.InjOn (fun spacing : Nat => v4PoolId eth currency0 currency1 fee spacing hooks)
      (Set.Icc 1 MAX_TICK_SPACING)

def Key.front (key : Key) : Bytes :=
  toBytes 32 key.currency0.toNat ++ toBytes 32 key.currency1.toNat ++ toBytes 32 key.fee ++
    List.replicate 30 0

def Key.Buffer (key : Key) (encoded : Bytes) : Prop :=
  ∃ high low, encoded = key.front ++ [high, low] ++ toBytes 32 key.hooks.toNat

variable (eth : Eth) (key : Key)

theorem length_front : key.front.length = 126 := by
  simp [Key.front]

theorem buffer_encoded : key.Buffer key.encoded := by
  refine ⟨0, 0, ?_⟩
  have zeros : toBytes 32 0 = List.replicate 30 0 ++ [0, 0] := rfl
  rw [Key.encoded, Key.front, zeros]
  simp only [List.append_assoc]

variable (encoded : Bytes) (candidate : Nat)

theorem patch_buffer (buffer : key.Buffer encoded) :
    patch encoded candidate = key.front ++
      [UInt8.ofNat (candidate >>> 8), UInt8.ofNat (candidate &&& 255)] ++
        toBytes 32 key.hooks.toNat := by
  obtain ⟨high, low, rfl⟩ := buffer
  have length := length_front key
  rw [patch, List.append_assoc, List.set_append_right _ _ (by omega),
    List.set_append_right _ _ (by omega), length]
  simp

theorem spacing_word (small : candidate < 65536) :
    toBytes 32 candidate = List.replicate 30 (0 : UInt8) ++
      [UInt8.ofNat (candidate >>> 8), UInt8.ofNat (candidate &&& 255)] := by
  have high : candidate >>> 8 = candidate / 256 := Nat.shiftRight_eq_div_pow candidate 8
  have low : UInt8.ofNat (candidate &&& 255) = UInt8.ofNat candidate := by
    apply UInt8.toNat_inj.mp
    rw [Nat.and_two_pow_sub_one_eq_mod candidate 8, UInt8.toNat_ofNat', UInt8.toNat_ofNat']
    omega
  rw [high, low, toBytes_padded 30 2 candidate small]
  simp [toBytes]

theorem keccak_patch (buffer : key.Buffer encoded) (small : candidate < 65536) :
    eth.keccak (patch encoded candidate) = key.poolId ↔ key.Matches eth candidate := by
  have positive : (0 : Int) ≤ candidate := Int.natCast_nonneg candidate
  rw [Key.Matches, v4PoolId, patch_buffer key encoded candidate buffer, if_pos positive,
    Int.toNat_natCast, Int.toNat_natCast, spacing_word candidate small, Key.front]
  simp only [List.append_assoc]

theorem firstMatch_find (candidates : List Nat) (buffer : key.Buffer encoded)
    (small : ∀ candidate ∈ candidates, candidate < 65536) :
    (firstMatch eth key.poolId encoded candidates).1 =
        candidates.find? (fun spacing => key.Matches eth spacing) ∧
      key.Buffer (firstMatch eth key.poolId encoded candidates).2 := by
  induction candidates generalizing encoded with
  | nil => exact ⟨rfl, buffer⟩
  | cons candidate rest ih =>
    have patched : key.Buffer (patch encoded candidate) :=
      ⟨_, _, patch_buffer key encoded candidate buffer⟩
    have hash := keccak_patch eth key encoded candidate buffer
      (small candidate List.mem_cons_self)
    by_cases found : key.Matches eth candidate
    · rw [firstMatch, if_pos (hash.mpr found), List.find?_cons_of_pos (by simpa using found)]
      exact ⟨rfl, patched⟩
    · rw [firstMatch, if_neg (fun same => found (hash.mp same)),
        List.find?_cons_of_neg (by simpa using found)]
      exact ih _ patched fun other member => small other (List.mem_cons_of_mem _ member)

def InRange (hints : Hints) : Prop :=
  ∀ entry ∈ hints.entries, ∀ spacing ∈ entry.2, spacing ∈ Set.Icc 1 MAX_TICK_SPACING

theorem known_inRange (hints : Hints) (fee : Nat) (hooks : Address) (ranged : InRange hints) :
    (∀ spacing ∈ (knownSpacings hints fee hooks).1, spacing ∈ Set.Icc 1 MAX_TICK_SPACING) ∧
      InRange (knownSpacings hints fee hooks).2 := by
  constructor
  · intro spacing member
    cases found : hints.get (fee, hooks) with
    | none => simp [knownSpacings, found] at member
    | some known =>
      rw [knownSpacings, found] at member
      exact ranged _ ((get_some hints _ known).mp found) spacing member
  · intro entry member
    unfold knownSpacings at member
    dsimp only at member
    split at member
    · exact ranged entry ((mem_touch hints _ entry).mp member)
    · exact ranged entry member

theorem remember_inRange (hints : Hints) (fee : Nat) (hooks : Address) (spacing : Nat)
    (ranged : InRange hints) (fits : spacing ∈ Set.Icc 1 MAX_TICK_SPACING) :
    InRange (rememberSpacing hints fee hooks spacing) := by
  intro entry member
  have learned := (mem_touch _ _ entry).mp (mem_trim _ _ entry member)
  split at learned
  · rcases mem_assign hints _ _ entry learned with old | rfl
    · exact ranged entry old
    · intro other inside
      rcases List.mem_append.mp inside with known | new
      · cases found : hints.get (fee, hooks) with
        | none => simp [found] at known
        | some current =>
          rw [found] at known
          exact ranged _ ((get_some hints _ current).mp found) other known
      · rw [List.mem_singleton.mp new]
        exact fits
  · exact ranged entry learned

theorem mem_spacings (spacing : Nat) :
    spacing ∈ List.range' 1 MAX_TICK_SPACING ↔ spacing ∈ Set.Icc 1 MAX_TICK_SPACING := by
  rw [List.mem_range'_1, Set.mem_Icc]
  omega

theorem spacing_small (spacing : Nat) (ranged : spacing ∈ Set.Icc 1 MAX_TICK_SPACING) :
    spacing < 65536 :=
  lt_of_le_of_lt ranged.2 (by decide)

theorem search_some (free : CollisionFree eth) (key : Key) (spacing : Nat) :
    key.search eth = some spacing ↔
      spacing ∈ Set.Icc 1 MAX_TICK_SPACING ∧ key.Matches eth spacing := by
  constructor
  · intro found
    have hit := List.find?_some found
    exact ⟨(mem_spacings spacing).mp (List.mem_of_find?_eq_some found), of_decide_eq_true hit⟩
  · rintro ⟨ranged, matching⟩
    have there : (key.search eth).isSome :=
      List.find?_isSome.mpr ⟨spacing, (mem_spacings spacing).mpr ranged, decide_eq_true matching⟩
    obtain ⟨other, found⟩ := Option.isSome_iff_exists.mp there
    have first : other ∈ Set.Icc 1 MAX_TICK_SPACING :=
      (mem_spacings other).mp (List.mem_of_find?_eq_some found)
    have hit := List.find?_some found
    rw [found, free key.currency0 key.currency1 key.fee key.hooks first ranged
      ((of_decide_eq_true hit : key.Matches eth other).trans matching.symm)]

theorem searchSpacing_plain (free : CollisionFree eth) (key : Key) (hints : Hints)
    (ranged : InRange hints) :
    (searchSpacing eth key hints).1 = key.search eth ∧
      InRange (searchSpacing eth key hints).2 := by
  obtain ⟨known, touched⟩ := known_inRange hints key.fee key.hooks ranged
  obtain ⟨hinted, buffer⟩ := firstMatch_find eth key key.encoded
    (knownSpacings hints key.fee key.hooks).1 (buffer_encoded key)
    fun spacing member => spacing_small spacing (known spacing member)
  obtain ⟨whole, -⟩ := firstMatch_find eth key _ (List.range' 1 MAX_TICK_SPACING) buffer
    fun spacing member => spacing_small spacing ((mem_spacings spacing).mp member)
  unfold searchSpacing
  dsimp only
  split
  · rename_i candidate found
    rw [hinted] at found
    have hit := List.find?_some found
    have verified := And.intro (known candidate (List.mem_of_find?_eq_some found))
      (of_decide_eq_true hit : key.Matches eth candidate)
    exact ⟨((search_some eth free key candidate).mpr verified).symm, touched⟩
  · split
    · rename_i candidate found
      rw [whole] at found
      have same : key.search eth = some candidate := found
      have verified := (search_some eth free key candidate).mp same
      exact ⟨same.symm, remember_inRange _ _ _ candidate touched verified.1⟩
    · rename_i missing
      rw [whole] at missing
      have same : key.search eth = none := missing
      exact ⟨same.symm, touched⟩

structure Tables.Sound (eth : Eth) (tables : Tables) : Prop where
  hints : InRange tables.hints
  memo : ∀ entry ∈ tables.memo.entries, entry.2 = entry.1.search eth

theorem sound_fresh : Tables.fresh.Sound eth :=
  ⟨fun _ member => absurd member List.not_mem_nil, fun _ member => absurd member List.not_mem_nil⟩

theorem Tables.Sound.learn {eth : Eth} {tables : Tables} (sound : tables.Sound eth) (hints : Hints)
    (ranged : InRange hints) : Tables.Sound eth { tables with hints := hints } :=
  ⟨ranged, sound.memo⟩

theorem check_supplied (arguments : Arguments) (key : Key) (spacing : Nat)
    (checked : arguments.check = some (key, some spacing)) :
    spacing ∈ Set.Icc 1 MAX_TICK_SPACING := by
  simp only [Arguments.check, Option.bind_eq_bind, Option.bind_eq_some_iff] at checked
  obtain ⟨poolId, -, currency0, -, currency1, -, hooks, -, rest⟩ := checked
  split at rest
  · cases rest
  · simp only [Option.bind_eq_some_iff] at rest
    obtain ⟨fee, -, supplied, read, same⟩ := rest
    obtain ⟨-, rfl⟩ := Prod.mk.inj (Option.some.inj same)
    unfold readSpacing at read
    split at read
    · cases read
    · split at read
      · rename_i value bounds
        obtain rfl := Option.some.inj (Option.some.inj read)
        exact ⟨by omega, by omega⟩
      · cases read
    · cases read

theorem resolve_given (tables : Tables) (arguments : Arguments) (key : Key) (spacing : Nat)
    (checked : arguments.check = some (key, some spacing)) (sound : tables.Sound eth) :
    (resolveSpacing eth tables arguments).1 = plainSearch eth arguments ∧
      (resolveSpacing eth tables arguments).2.Sound eth := by
  have ranged := check_supplied arguments key spacing checked
  simp only [resolveSpacing, plainSearch, checked]
  by_cases matching : key.Matches eth spacing
  · rw [if_pos matching, if_pos matching]
    exact ⟨rfl, sound.learn _ (remember_inRange _ key.fee key.hooks spacing sound.hints ranged)⟩
  · rw [if_neg matching, if_neg matching]
    exact ⟨rfl, sound⟩

theorem resolve_omitted (free : CollisionFree eth) (tables : Tables) (arguments : Arguments)
    (key : Key) (checked : arguments.check = some (key, none)) (sound : tables.Sound eth) :
    (resolveSpacing eth tables arguments).1 = plainSearch eth arguments ∧
      (resolveSpacing eth tables arguments).2.Sound eth := by
  obtain ⟨plain, ranged⟩ := searchSpacing_plain eth free key tables.hints sound.hints
  obtain ⟨answer, memo⟩ := @cached_right _ _ _ _ (fun key found => found = key.search eth)
    tables.memo MEMO_SIZE key (searchSpacing eth key) tables.hints sound.memo plain
  have hints := @cached_state _ _ _ _ InRange tables.memo MEMO_SIZE key
    (searchSpacing eth key) tables.hints sound.hints ranged
  simp only [resolveSpacing, plainSearch, checked]
  exact ⟨answer, hints, memo⟩

theorem resolve_plain (free : CollisionFree eth) (tables : Tables) (arguments : Arguments)
    (sound : tables.Sound eth) :
    (resolveSpacing eth tables arguments).1 = plainSearch eth arguments ∧
      (resolveSpacing eth tables arguments).2.Sound eth := by
  cases checked : arguments.check with
  | none =>
    simp only [resolveSpacing, plainSearch, checked]
    exact ⟨trivial, sound⟩
  | some call =>
    obtain ⟨key, supplied⟩ := call
    cases supplied with
    | some spacing => exact resolve_given eth tables arguments key spacing checked sound
    | none => exact resolve_omitted eth free tables arguments key checked sound

theorem resolveAll_plain (free : CollisionFree eth) (calls : List Arguments) (tables : Tables)
    (sound : tables.Sound eth) :
    resolveAll eth tables calls = calls.map (plainSearch eth) := by
  induction calls generalizing tables with
  | nil => rfl
  | cons arguments rest ih =>
    obtain ⟨answer, later⟩ := resolve_plain eth free tables arguments sound
    rw [resolveAll, List.map_cons, answer, ih _ later]

theorem plainSearch_some (free : CollisionFree eth) (arguments : Arguments) (spacing : Nat) :
    plainSearch eth arguments = some spacing ↔ Verified eth arguments spacing := by
  unfold Verified
  cases checked : arguments.check with
  | none => simp [plainSearch, checked]
  | some call =>
    obtain ⟨key, supplied⟩ := call
    rw [plainSearch, checked]
    cases supplied with
    | none => simp [search_some eth free key spacing]
    | some other =>
      have ranged := check_supplied arguments key other checked
      by_cases matching : key.Matches eth other
      · simp only [if_pos matching, Option.some.injEq, Prod.mk.injEq]
        constructor
        · rintro rfl
          exact ⟨key, some other, ⟨rfl, rfl⟩, by simp, ranged, matching⟩
        · rintro ⟨_, _, ⟨rfl, rfl⟩, same, -, -⟩
          exact same other rfl
      · simp only [if_neg matching, reduceCtorEq, Option.some.injEq, Prod.mk.injEq, false_iff]
        rintro ⟨_, _, ⟨rfl, rfl⟩, same, -, hit⟩
        exact matching (same other rfl ▸ hit)

/-- Whatever calls came before, a call answers as the search without hints and memo does: with
the spacing that the PoolKey's hash verifies, or with none. -/
theorem hints_change_nothing (eth : Eth) (free : CollisionFree eth) (calls : List Arguments) :
    resolveAll eth .fresh calls = calls.map (plainSearch eth) ∧
      ∀ arguments spacing,
        plainSearch eth arguments = some spacing ↔ Verified eth arguments spacing :=
  ⟨resolveAll_plain eth free calls .fresh (sound_fresh eth), plainSearch_some eth free⟩

/-! A pool of WETH and USDG is searched, verified with its spacing and with another one, and
found in the memo. -/

def sampleKey : Key :=
  { poolId := samplePool, currency0 := WETH, currency1 := USDG, fee := 3000, hooks := 0#160 }

def sampleEncoding : Bytes :=
  toBytes 32 WETH.toNat ++ toBytes 32 USDG.toNat ++ toBytes 32 3000 ++ toBytes 32 60 ++
    toBytes 32 0

/-- The id of the pool, and for any other input what stands at the spacing. -/
def spacingKeccak : Eth where
  abi := AbiCodec.layout
  keccak bytes :=
    if bytes = sampleEncoding then samplePool
    else BitVec.ofNat 256 (ofBytes ((bytes.drop 126).take 2))

theorem spacing_read (spacing : Nat) (small : spacing < 65536) :
    ofBytes (((patch key.encoded spacing).drop 126).take 2) = spacing := by
  have word := toBytes_padded 30 2 spacing small
  rw [spacing_word spacing small, List.append_cancel_left_eq] at word
  rw [patch_buffer key _ spacing (buffer_encoded key), List.append_assoc, ← length_front key,
    List.drop_left, word, List.take_left' (length_toBytes 2 spacing)]
  exact ofBytes_toBytes_of_lt 2 spacing small

theorem spacingKeccak_free : CollisionFree spacingKeccak := by
  intro currency0 currency1 fee hooks left inLeft right inRight same
  have smallLeft := spacing_small left inLeft
  have smallRight := spacing_small right inRight
  -- any id will do, the encoding does not depend on it
  have hash : ∀ spacing : Nat, spacing < 65536 →
      v4PoolId spacingKeccak currency0 currency1 fee spacing hooks = spacingKeccak.keccak
        (patch (Key.encoded ⟨0, currency0, currency1, fee, hooks⟩) spacing) := by
    intro spacing small
    have matching := keccak_patch spacingKeccak
      ⟨v4PoolId spacingKeccak currency0 currency1 fee spacing hooks, currency0, currency1, fee,
        hooks⟩ _ spacing (buffer_encoded _) small
    exact (matching.mpr rfl).symm
  have apart : ∀ spacing < 65536, samplePool ≠ BitVec.ofNat 256 spacing := by
    intro spacing small equal
    have large : 65536 ≤ samplePool.toNat := by decide
    rw [equal, BitVec.toNat_ofNat] at large
    omega
  dsimp only at same
  rw [hash left smallLeft, hash right smallRight] at same
  have readLeft := spacing_read ⟨0, currency0, currency1, fee, hooks⟩ left smallLeft
  have readRight := spacing_read ⟨0, currency0, currency1, fee, hooks⟩ right smallRight
  unfold spacingKeccak at same
  dsimp only at same
  rw [readLeft, readRight] at same
  split at same
  · rename_i first
    split at same
    · rename_i second
      rw [← readLeft, ← readRight, first, second]
    · exact absurd same (apart right smallRight)
  · split at same
    · exact absurd same.symm (apart left smallLeft)
    · have numbers := congrArg BitVec.toNat same
      rw [BitVec.toNat_ofNat, BitVec.toNat_ofNat] at numbers
      omega

def sampleArguments (tickSpacing : Value) : Arguments :=
  { poolId := "0x77C25B9386D47DE62E0155C393696E9F43F7E6D036C6CA52F66735CCBB8808A7"
    currency0 := "0x0bd7d308f8e1639fab988df18a8011f41eacad73"
    currency1 := "0x5fc5360d0400a0fd4f2af552add042d716f1d168"
    fee := .int 3000
    hooks := "0x0000000000000000000000000000000000000000"
    tickSpacing := tickSpacing }

theorem hints_change_nothing_sample :
    resolveAll spacingKeccak .fresh
        [sampleArguments .none, sampleArguments (.int 60), sampleArguments (.int 61),
          sampleArguments .none] =
      [some 60, some 60, none, some 60] := by
  obtain ⟨plain, verified⟩ := hints_change_nothing spacingKeccak spacingKeccak_free
    [sampleArguments .none, sampleArguments (.int 60), sampleArguments (.int 61),
      sampleArguments .none]
  have hash : sampleKey.Matches spacingKeccak 60 := by decide +kernel
  have omitted := (verified (sampleArguments .none) 60).mpr
    ⟨sampleKey, none, by decide +kernel, by simp, by decide, hash⟩
  have given := (verified (sampleArguments (.int 60)) 60).mpr
    ⟨sampleKey, some 60, by decide +kernel, by simp, by decide, hash⟩
  have wrong : plainSearch spacingKeccak (sampleArguments (.int 61)) = none := by decide +kernel
  rw [plain, List.map_cons, List.map_cons, List.map_cons, List.map_cons, List.map_nil, omitted,
    given, wrong]

end RhPools.SpacingHints
