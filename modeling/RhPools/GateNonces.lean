import RhPools.TxChain
import RhPools.OrderedTables
import RhPools.GuardedRuns

/-! Sign-in nonces of the holder gate under any number of threads. A call takes its
locked sections and its reads of the clock as separate steps, and the signature is
verified between the check of the nonce and its removal. -/

namespace RhPools.GateNonces
open TxChain OrderedTables GuardedRuns

def MAX_NONCES : Nat := 4096

/-- What the gate serves; `nonceTtlS` is the lifetime of a nonce. -/
structure Served where
  chainId : Nat
  hosts : List String
  nonceTtlS : ℚ

structure SiweMessage where
  domain : String
  uriHost : String
  address : Address
  chainId : Nat
  nonce : String
  issuedAt : ℚ
  expirationTime : Option ℚ
  notBefore : Option ℚ

/-- A call of `sign_in`; `siwe` is what `parse_message` makes of the text, `host` is in
lower case. -/
structure SignIn where
  siwe : Except String SiweMessage
  host : Option String

structure GateRefusal where
  status : Nat
  error : String
  reason : Option String
  retryAfter : Option Nat

def signInRefused (reason : String) : GateRefusal :=
  ⟨401, "sign-in refused", some reason, none⟩

def NONCE_REASON : String := "nonce unknown, used or expired"

def messageReason (served : Served) (host : Option String) (siwe : SiweMessage) (now : ℚ) :
    Option String :=
  if ¬(siwe.domain ∈ served.hosts ∨ host = some siwe.domain) ∨ siwe.uriHost ≠ siwe.domain then
    some "domain not served here"
  else if siwe.chainId ≠ served.chainId then some s!"chain id must be {served.chainId}"
  else if siwe.expirationTime.any (· ≤ now) then some "message expired"
  else if siwe.notBefore.any (now < ·) then some "message not yet valid"
  else if now + 60 < siwe.issuedAt then some "issued in the future"
  else none

/-- A session that was minted; `started` is the clock at the start of its sign-in. -/
structure Session where
  wallet : Address
  nonce : String
  started : ℚ

inductive Answer where
  | nonce (value : String) (issuedAt expiresAt : ℚ)
  | session (session : Session)
  | refused (refusal : GateRefusal)
  | failed

inductive Thread where
  | idle
  | asking (now : ℚ)
  | checking (now : ℚ) (call : SignIn)
  | verifying (now : ℚ) (siwe : SiweMessage)
  | popping (now : ℚ) (siwe : SiweMessage)
  | minting (now : ℚ) (siwe : SiweMessage)
  | done (answer : Answer)

/-- The state of the gate. `drawn` counts the values taken from the random source;
`issued` and `spent` record every nonce that was inserted and every one that was popped. -/
structure World where
  clock : ℚ
  nonces : OrderedTable String ℚ
  threads : Nat → Thread
  drawn : Nat
  issued : List (String × ℚ)
  spent : List String
  sessions : List Session

def World.put (world : World) (thread : Nat) (state : Thread) : World :=
  { world with threads := Function.update world.threads thread state }

/-- The locked section of `nonce`; the value is drawn here, as nobody sees it before. -/
def World.issue (served : Served) (tokenHex : Nat → String) (world : World) (thread : Nat)
    (now : ℚ) : World :=
  let value := tokenHex world.drawn
  let expires := now + served.nonceTtlS
  let nonces := world.nonces.popWhile (· ≤ now)
  let world := { world with drawn := world.drawn + 1 }
  if MAX_NONCES ≤ nonces.size then
    { world with nonces := nonces }.put thread
      (.done (.refused ⟨503, "nonce capacity reached", none, some 30⟩))
  else
    { world with nonces := nonces.put value expires, issued := (value, expires) :: world.issued }.put
      thread (.done (.nonce value now expires))

/-- The checks of `sign_in` before the signature; `allowed` is the answer of the window of
the caller's address. -/
def check (served : Served) (world : World) (now : ℚ) (call : SignIn) (allowed : Bool) : Thread :=
  match call.siwe with
  | .error reason => .done (.refused (signInRefused reason))
  | .ok siwe =>
    match messageReason served call.host siwe now with
    | some reason => .done (.refused (signInRefused reason))
    | none =>
      if (world.nonces.get siwe.nonce).all (· ≤ now) then
        .done (.refused (signInRefused NONCE_REASON))
      else if allowed then .verifying now siwe
      else .done (.refused ⟨429, "sign-in rate limit", none, some 60⟩)

def verified (genuine : Except String Bool) (now : ℚ) (siwe : SiweMessage) : Thread :=
  match genuine with
  | .error reason => .done (.refused (signInRefused reason))
  | .ok true => .popping now siwe
  | .ok false => .done (.refused (signInRefused "signature does not match the address"))

def World.pop (world : World) (thread : Nat) (now : ℚ) (siwe : SiweMessage) : World :=
  match world.nonces.get siwe.nonce with
  | none => world.put thread (.done (.refused (signInRefused NONCE_REASON)))
  | some _ =>
    { world with
      nonces := world.nonces.erase siwe.nonce
      spent := siwe.nonce :: world.spent }.put thread (.minting now siwe)

def World.mint (world : World) (thread : Nat) (now : ℚ) (siwe : SiweMessage) : World :=
  let session : Session := ⟨siwe.address, siwe.nonce, now⟩
  { world with sessions := session :: world.sessions }.put thread (.done (.session session))

inductive Action where
  | tick (now : ℚ)
  /-- `nonce` past its argument and its window. -/
  | ask
  | issue
  | signIn (call : SignIn)
  | check (allowed : Bool)
  /-- What `verify_signer` answers, or why it raises. -/
  | verify (genuine : Except String Bool)
  | pop
  | mint
  /-- A node or a database that fails ends the call. -/
  | fail

def act (served : Served) (tokenHex : Nat → String) (world : World) (thread : Nat) :
    Action → Thread → Option World
  | .tick now, _ => if world.clock ≤ now then some { world with clock := now } else none
  | .ask, .idle => some (world.put thread (.asking world.clock))
  | .issue, .asking now => some (world.issue served tokenHex thread now)
  | .signIn call, .idle => some (world.put thread (.checking world.clock call))
  | .check allowed, .checking now call =>
    some (world.put thread (check served world now call allowed))
  | .verify genuine, .verifying now siwe => some (world.put thread (verified genuine now siwe))
  | .pop, .popping now siwe => some (world.pop thread now siwe)
  | .mint, .minting now siwe => some (world.mint thread now siwe)
  | .fail, .verifying _ _ => some (world.put thread (.done .failed))
  | .fail, .minting _ _ => some (world.put thread (.done .failed))
  | _, _ => none

def fresh (clock : ℚ) : World :=
  ⟨clock, .empty, fun _ => .idle, 0, [], [], []⟩

def nonceRuns (served : Served) (tokenHex : Nat → String) : System World (Nat × Action) where
  start world := ∃ clock, world = fresh clock
  step world turn := act served tokenHex world turn.1 turn.2 (world.threads turn.1)

def Apart (tokenHex : Nat → String) (drawn : Nat) : Prop :=
  ∀ first < drawn, ∀ second < drawn, tokenHex first = tokenHex second → first = second

def Alive (world : World) (now : ℚ) (nonce : String) : Prop :=
  ∃ expires, (nonce, expires) ∈ world.issued ∧ now < expires

def Fits (world : World) : Thread → Prop
  | .asking now => now ≤ world.clock
  | .verifying now siwe | .popping now siwe => Alive world now siwe.nonce
  | .minting now siwe => Alive world now siwe.nonce ∧ siwe.nonce ∈ world.spent ∧
      siwe.nonce ∉ world.sessions.map Session.nonce
  | _ => True

def Mints (nonce : String) : Thread → Prop
  | .minting _ siwe => siwe.nonce = nonce
  | _ => False

structure Sound (tokenHex : Nat → String) (world : World) : Prop where
  drawn : ∀ entry ∈ world.issued, ∃ index < world.drawn, tokenHex index = entry.1
  held : ∀ entry ∈ world.nonces.entries, entry ∈ world.issued ∧ entry.1 ∉ world.spent
  kept : ∀ entry ∈ world.issued, world.clock < entry.2 → entry.1 ∉ world.spent →
    entry ∈ world.nonces.entries
  size : world.nonces.size ≤ MAX_NONCES
  once : world.spent.Nodup
  spent : ∀ nonce ∈ world.spent, nonce ∈ world.issued.map Prod.fst
  threads : ∀ thread, Fits world (world.threads thread)
  minting : ∀ first second nonce, Mints nonce (world.threads first) →
    Mints nonce (world.threads second) → first = second
  distinct : (world.sessions.map Session.nonce).Nodup
  sessions : ∀ session ∈ world.sessions,
    Alive world session.started session.nonce ∧ session.nonce ∈ world.spent

variable (served : Served) (tokenHex : Nat → String)

theorem fresh_sound (clock : ℚ) : Sound tokenHex (fresh clock) := by
  refine ⟨?_, ?_, ?_, Nat.zero_le _, List.nodup_nil, ?_, ?_, ?_, List.nodup_nil, ?_⟩ <;>
    simp [fresh, OrderedTable.empty, Fits, Mints]

variable (world : World)

theorem fits_put (thread : Nat) (state other : Thread) (fits : Fits world other) :
    Fits (world.put thread state) other := by
  cases other <;> exact fits

theorem Sound.put (sound : Sound tokenHex world) (thread : Nat) (state : Thread)
    (fits : Fits world state)
    (alone : ∀ nonce, Mints nonce state → ∀ other, ¬Mints nonce (world.threads other)) :
    Sound tokenHex (world.put thread state) := by
  refine { sound with threads := ?_, minting := ?_ }
  · exact (Function.forall_update_iff world.threads fun _ => Fits (world.put thread state)).mpr
      ⟨fits_put _ _ _ _ fits, fun other _ => fits_put _ _ _ _ (sound.threads other)⟩
  · intro first second nonce one two
    simp only [World.put, Function.update_apply] at one two
    split at one <;> split at two
    · exact ‹first = thread›.trans ‹second = thread›.symm
    · exact absurd two (alone nonce one second)
    · exact absurd one (alone nonce two first)
    · exact sound.minting first second nonce one two

theorem Sound.puts (sound : Sound tokenHex world) (thread : Nat) (state : Thread)
    (fits : Fits world state) (quiet : ∀ nonce, ¬Mints nonce state) :
    Sound tokenHex (world.put thread state) :=
  sound.put _ _ thread state fits fun nonce mints => absurd mints (quiet nonce)

theorem Sound.tick (sound : Sound tokenHex world) (now : ℚ) (later : world.clock ≤ now) :
    Sound tokenHex { world with clock := now } := by
  refine { sound with kept := ?_, threads := ?_ }
  · intro entry member young
    exact sound.kept entry member (later.trans_lt young)
  · intro thread
    have fits := sound.threads thread
    change Fits _ (world.threads thread)
    cases here : world.threads thread <;> rw [here] at fits
    case asking => exact le_trans fits later
    all_goals exact fits

theorem Sound.evict (sound : Sound tokenHex world) (now : ℚ) (past : now ≤ world.clock) :
    Sound tokenHex { world with nonces := world.nonces.popWhile (· ≤ now) } := by
  refine { sound with held := ?_, kept := ?_, size := ?_ }
  · intro entry member
    exact sound.held entry (mem_popWhile _ _ _ member)
  · intro entry member young unspent
    refine popWhile_keeps _ _ _ (sound.kept entry member young unspent) ?_
    exact decide_eq_false (past.trans_lt young).not_ge
  · exact (size_popWhile _ _).trans sound.size

theorem Sound.draw (sound : Sound tokenHex world) :
    Sound tokenHex { world with drawn := world.drawn + 1 } := by
  refine { sound with drawn := ?_ }
  intro entry member
  obtain ⟨index, below, same⟩ := sound.drawn entry member
  exact ⟨index, Nat.lt_succ_of_lt below, same⟩

theorem Alive.grows (world next : World) (now : ℚ) (nonce : String)
    (alive : Alive world now nonce) (more : ∀ entry ∈ world.issued, entry ∈ next.issued) :
    Alive next now nonce := by
  obtain ⟨expires, issued, young⟩ := alive
  exact ⟨expires, more _ issued, young⟩

theorem Fits.grows (world next : World) (thread : Thread) (fits : Fits world thread)
    (clock : next.clock = world.clock) (issued : ∀ entry ∈ world.issued, entry ∈ next.issued)
    (spent : ∀ nonce ∈ world.spent, nonce ∈ next.spent)
    (sessions : next.sessions = world.sessions) : Fits next thread := by
  cases thread with
  | asking now => exact le_of_le_of_eq fits clock.symm
  | verifying now siwe => exact Alive.grows _ _ _ _ fits issued
  | popping now siwe => exact Alive.grows _ _ _ _ fits issued
  | minting now siwe =>
    exact ⟨Alive.grows _ _ _ _ fits.1 issued, spent _ fits.2.1, sessions ▸ fits.2.2⟩
  | _ => trivial

theorem Sound.insert (sound : Sound tokenHex world) (value : String) (expires : ℚ)
    (room : world.nonces.size < MAX_NONCES) (drawn : ∃ index < world.drawn, tokenHex index = value)
    (new : value ∉ world.issued.map Prod.fst) :
    Sound tokenHex { world with
      nonces := world.nonces.put value expires, issued := (value, expires) :: world.issued } := by
  have apart : ∀ entry ∈ world.issued, entry.1 ≠ value := by
    rintro entry member rfl
    exact new (List.mem_map_of_mem member)
  refine { sound with drawn := ?_, held := ?_, kept := ?_, size := ?_, spent := ?_, threads := ?_, sessions := ?_ }
  · exact List.forall_mem_cons.mpr ⟨drawn, sound.drawn⟩
  · intro entry member
    rcases (mem_put _ _ _ _).mp member with ⟨old, -⟩ | rfl
    · exact ⟨List.mem_cons_of_mem _ (sound.held entry old).1, (sound.held entry old).2⟩
    · exact ⟨List.mem_cons_self, fun gone => new (sound.spent _ gone)⟩
  · intro entry member young unspent
    rcases List.mem_cons.mp member with here | old
    · exact (mem_put _ _ _ _).mpr (Or.inr here)
    · exact (mem_put _ _ _ _).mpr (Or.inl ⟨sound.kept entry old young unspent, apart entry old⟩)
  · exact (size_put _ _ _).trans room
  · intro nonce gone
    exact List.mem_cons_of_mem _ (sound.spent nonce gone)
  · intro thread
    exact (sound.threads thread).grows _ _ _ rfl (fun _ => List.mem_cons_of_mem _) (fun _ => id) rfl
  · intro session member
    obtain ⟨alive, spent⟩ := sound.sessions session member
    exact ⟨alive.grows _ _ _ _ fun _ => List.mem_cons_of_mem _, spent⟩

theorem Sound.spend (sound : Sound tokenHex world) (nonce : String) (expires : ℚ)
    (there : (nonce, expires) ∈ world.nonces.entries) :
    Sound tokenHex { world with
      nonces := world.nonces.erase nonce, spent := nonce :: world.spent } := by
  obtain ⟨issued, unspent⟩ := sound.held _ there
  refine { sound with held := ?_, kept := ?_, size := ?_, once := ?_, spent := ?_, threads := ?_, sessions := ?_ }
  · intro entry member
    obtain ⟨old, apart⟩ := (mem_erase _ _ _).mp member
    obtain ⟨before, alive⟩ := sound.held entry old
    exact ⟨before, List.not_mem_cons_of_ne_of_not_mem apart alive⟩
  · intro entry member young alive
    obtain ⟨apart, alive⟩ := List.ne_and_not_mem_of_not_mem_cons alive
    exact (mem_erase _ _ _).mpr ⟨sound.kept entry member young alive, apart⟩
  · exact (size_erase _ _).trans sound.size
  · exact List.nodup_cons.mpr ⟨unspent, sound.once⟩
  · exact List.forall_mem_cons.mpr ⟨List.mem_map_of_mem issued, sound.spent⟩
  · intro thread
    exact (sound.threads thread).grows _ _ _ rfl (fun _ => id) (fun _ => List.mem_cons_of_mem _) rfl
  · intro session member
    obtain ⟨alive, gone⟩ := sound.sessions session member
    exact ⟨alive, List.mem_cons_of_mem _ gone⟩

theorem Sound.session (sound : Sound tokenHex world) (session : Session)
    (alive : Alive world session.started session.nonce) (spent : session.nonce ∈ world.spent)
    (new : session.nonce ∉ world.sessions.map Session.nonce)
    (alone : ∀ thread, ¬Mints session.nonce (world.threads thread)) :
    Sound tokenHex { world with sessions := session :: world.sessions } := by
  refine { sound with threads := ?_, distinct := ?_, sessions := ?_ }
  · intro thread
    have fits := sound.threads thread
    have other := alone thread
    change Fits _ (world.threads thread)
    cases here : world.threads thread <;> rw [here] at fits other
    case minting now siwe =>
      exact ⟨fits.1, fits.2.1, List.not_mem_cons_of_ne_of_not_mem other fits.2.2⟩
    all_goals exact fits
  · exact List.nodup_cons.mpr ⟨new, sound.distinct⟩
  · exact List.forall_mem_cons.mpr ⟨⟨alive, spent⟩, sound.sessions⟩

theorem issue_sound (sound : Sound tokenHex world) (thread : Nat) (now : ℚ)
    (asking : world.threads thread = .asking now) (apart : Apart tokenHex (world.drawn + 1)) :
    Sound tokenHex (world.issue served tokenHex thread now) := by
  have past : now ≤ world.clock := by
    have fits := sound.threads thread
    rwa [asking] at fits
  have evicted := (sound.draw tokenHex world).evict _ _ now past
  unfold World.issue
  dsimp only
  split
  · exact evicted.puts _ _ thread _ trivial (fun _ => id)
  · rename_i room
    have new : tokenHex world.drawn ∉ world.issued.map Prod.fst := by
      intro member
      obtain ⟨entry, issued, same⟩ := List.mem_map.mp member
      obtain ⟨index, below, drawn⟩ := sound.drawn entry issued
      have twin := apart index (Nat.lt_succ_of_lt below) world.drawn (Nat.lt_succ_self _)
        (drawn.trans same)
      exact absurd twin below.ne
    have inserted := evicted.insert _ _ (tokenHex world.drawn) (now + served.nonceTtlS)
      (Nat.lt_of_not_le room) ⟨world.drawn, Nat.lt_succ_self _, rfl⟩ new
    exact inserted.puts _ _ thread _ trivial (fun _ => id)

theorem check_fits (sound : Sound tokenHex world) (now : ℚ) (call : SignIn) (allowed : Bool) :
    Fits world (check served world now call allowed) ∧
      ∀ nonce, ¬Mints nonce (check served world now call allowed) := by
  unfold check
  split
  · exact ⟨trivial, fun _ => id⟩
  split
  · exact ⟨trivial, fun _ => id⟩
  split
  · exact ⟨trivial, fun _ => id⟩
  rename_i alive
  split
  · refine ⟨?_, fun _ => id⟩
    cases there : world.nonces.get _ with
    | none =>
      rw [there] at alive
      exact absurd rfl alive
    | some expires =>
      rw [there] at alive
      refine ⟨expires, (sound.held _ ((get_some _ _ _).mp there)).1, ?_⟩
      simpa using alive
  · exact ⟨trivial, fun _ => id⟩

theorem pop_sound (sound : Sound tokenHex world) (thread : Nat) (now : ℚ) (siwe : SiweMessage)
    (alive : Alive world now siwe.nonce) :
    Sound tokenHex (world.pop thread now siwe) := by
  unfold World.pop
  split
  · exact sound.puts _ _ thread _ trivial (fun _ => id)
  · rename_i expires there
    have member := (get_some _ _ _).mp there
    have unspent := (sound.held _ member).2
    refine (sound.spend _ _ siwe.nonce expires member).put _ _ thread _ ?_ ?_
    · refine ⟨alive, List.mem_cons_self, ?_⟩
      intro minted
      obtain ⟨session, done, same⟩ := List.mem_map.mp minted
      exact unspent (same ▸ (sound.sessions session done).2)
    · rintro nonce rfl other mints
      have fits := sound.threads other
      change Mints siwe.nonce (world.threads other) at mints
      cases here : world.threads other <;> rw [here] at fits mints
      case minting then_ message => exact unspent (mints ▸ fits.2.1)
      all_goals exact mints

theorem mint_sound (sound : Sound tokenHex world) (thread : Nat) (now : ℚ) (siwe : SiweMessage)
    (minting : world.threads thread = .minting now siwe) :
    Sound tokenHex (world.mint thread now siwe) := by
  have fits := sound.threads thread
  rw [minting] at fits
  obtain ⟨alive, spent, new⟩ := fits
  refine (sound.puts _ _ thread (.done (.session ⟨siwe.address, siwe.nonce, now⟩)) trivial
    (fun _ => id)).session _ _ ⟨siwe.address, siwe.nonce, now⟩ alive spent new ?_
  intro other mints
  simp only [World.put, Function.update_apply] at mints
  split at mints
  · exact mints
  · rename_i apart
    refine apart (sound.minting other thread siwe.nonce mints ?_)
    rw [minting]
    exact rfl

theorem verified_fits (genuine : Except String Bool) (now : ℚ) (siwe : SiweMessage)
    (alive : Alive world now siwe.nonce) :
    Fits world (verified genuine now siwe) ∧ ∀ nonce, ¬Mints nonce (verified genuine now siwe) := by
  unfold verified
  split
  · exact ⟨trivial, fun _ => id⟩
  · exact ⟨alive, fun _ => id⟩
  · exact ⟨trivial, fun _ => id⟩

theorem issue_drawn (thread : Nat) (now : ℚ) :
    (world.issue served tokenHex thread now).drawn = world.drawn + 1 := by
  unfold World.issue
  dsimp only
  split <;> rfl

theorem pop_drawn (thread : Nat) (now : ℚ) (siwe : SiweMessage) :
    (world.pop thread now siwe).drawn = world.drawn := by
  unfold World.pop
  split <;> rfl

theorem act_sound (world next : World) (thread : Nat) (action : Action)
    (taken : act served tokenHex world thread action (world.threads thread) = some next) :
    world.drawn ≤ next.drawn ∧
      (Sound tokenHex world → Apart tokenHex next.drawn → Sound tokenHex next) := by
  unfold act at taken
  split at taken
  case h_1 _ now =>
    split at taken
    · rename_i later
      obtain rfl := Option.some.inj taken
      exact ⟨le_refl _, fun sound _ => sound.tick _ _ now later⟩
    · cases taken
  case h_2 =>
    obtain rfl := Option.some.inj taken
    exact ⟨le_refl _, fun sound _ => sound.puts _ _ thread _ (le_refl world.clock) fun _ => id⟩
  case h_3 now asking =>
    obtain rfl := Option.some.inj taken
    rw [issue_drawn]
    exact ⟨Nat.le_succ _, fun sound apart => issue_sound _ _ _ sound _ _ asking apart⟩
  case h_4 call _ =>
    obtain rfl := Option.some.inj taken
    exact ⟨le_refl _, fun sound _ => sound.puts _ _ thread _ trivial fun _ => id⟩
  case h_5 allowed now call _ =>
    obtain rfl := Option.some.inj taken
    refine ⟨le_refl _, fun sound _ => ?_⟩
    obtain ⟨fits, quiet⟩ := check_fits served tokenHex world sound now call allowed
    exact sound.puts _ _ thread _ fits quiet
  case h_6 genuine now siwe here =>
    obtain rfl := Option.some.inj taken
    refine ⟨le_refl _, fun sound _ => ?_⟩
    have alive := sound.threads thread
    rw [here] at alive
    obtain ⟨fits, quiet⟩ := verified_fits world genuine now siwe alive
    exact sound.puts _ _ thread _ fits quiet
  case h_7 now siwe here =>
    obtain rfl := Option.some.inj taken
    refine ⟨(pop_drawn _ _ _ _).ge, fun sound _ => ?_⟩
    have alive := sound.threads thread
    rw [here] at alive
    exact pop_sound tokenHex world sound thread now siwe alive
  case h_8 now siwe here =>
    obtain rfl := Option.some.inj taken
    exact ⟨le_refl _, fun sound _ => mint_sound tokenHex world sound thread now siwe here⟩
  case h_9 =>
    obtain rfl := Option.some.inj taken
    exact ⟨le_refl _, fun sound _ => sound.puts _ _ thread _ trivial fun _ => id⟩
  case h_10 =>
    obtain rfl := Option.some.inj taken
    exact ⟨le_refl _, fun sound _ => sound.puts _ _ thread _ trivial fun _ => id⟩
  case h_11 => cases taken

theorem reached_sound (reached : (nonceRuns served tokenHex).Reaches always world)
    (apart : Apart tokenHex world.drawn) : Sound tokenHex world := by
  refine System.Reaches.invariant (fun world => Apart tokenHex world.drawn → Sound tokenHex world)
    ?_ ?_ world reached apart
  · rintro _ ⟨clock, rfl⟩ _
    exact fresh_sound tokenHex clock
  · intro world turn next sound _ taken apart
    obtain ⟨more, kept⟩ := act_sound served tokenHex world next turn.1 turn.2 taken
    refine kept (sound ?_) apart
    intro first below second under
    exact apart first (below.trans_le more) second (under.trans_le more)

/-- Sessions come from different nonces of the gate, none expired when its sign-in
started, and each consumed; a nonce goes only by a sign-in or by its expiry. -/
theorem nonces_spent_once (served : Served) (tokenHex : Nat → String) (world : World)
    (reached : (nonceRuns served tokenHex).Reaches always world)
    (apart : Apart tokenHex world.drawn) :
    (world.sessions.map Session.nonce).Nodup ∧
    (∀ session ∈ world.sessions,
      (∃ expires, (session.nonce, expires) ∈ world.issued ∧ session.started < expires) ∧
        session.nonce ∈ world.spent) ∧
    world.spent.Nodup ∧
    (∀ nonce ∈ world.spent, world.nonces.get nonce = none) ∧
    (∀ entry ∈ world.issued, world.clock < entry.2 → entry.1 ∉ world.spent →
      world.nonces.get entry.1 = some entry.2) ∧
    world.nonces.size ≤ MAX_NONCES := by
  have sound := reached_sound served tokenHex world reached apart
  refine ⟨sound.distinct, sound.sessions, sound.once, ?_, ?_, sound.size⟩
  · intro nonce spent
    refine (get_none _ _).mpr ?_
    rintro entry member rfl
    exact (sound.held entry member).2 spent
  · intro entry member young unspent
    exact (get_some _ _ _).mpr (sound.kept entry member young unspent)

def sampleServed : Served := ⟨4663, ["pools.example"], 600⟩

def sampleHex (draw : Nat) : String :=
  if draw = 0 then "00112233445566778899aabbccddeeff" else "ffeeddccbbaa99887766554433221100"

def sampleMessage : SiweMessage :=
  { domain := "pools.example", uriHost := "pools.example", address := 9, chainId := 4663
    nonce := sampleHex 0, issuedAt := 1, expirationTime := some 300, notBefore := none }

def sampleTurns : List (Nat × Action) :=
  [(0, .ask), (1, .ask), (0, .issue), (1, .issue), (0, .tick 1),
    (2, .signIn ⟨.ok sampleMessage, none⟩), (3, .signIn ⟨.ok sampleMessage, none⟩),
    (2, .check true), (3, .check true), (2, .verify (.ok true)), (3, .verify (.ok true)),
    (3, .pop), (2, .pop), (3, .mint)]

theorem sampleTurns_taken :
    ((nonceRuns sampleServed sampleHex).run (fresh 0) sampleTurns).isSome := by decide +kernel

def sampleWorld : World :=
  ((nonceRuns sampleServed sampleHex).run (fresh 0) sampleTurns).get sampleTurns_taken

/-- One of the two threads gets a session, and the second nonce stays. -/
theorem nonces_spent_once_sample :
    sampleWorld.sessions.map Session.nonce = [sampleHex 0] ∧
    sampleWorld.spent = [sampleHex 0] ∧ sampleWorld.nonces.get (sampleHex 0) = none ∧
    sampleWorld.nonces.get (sampleHex 1) = some 600 := by
  have reached : (nonceRuns sampleServed sampleHex).Reaches always sampleWorld :=
    System.Reaches.run (fresh 0) _ sampleTurns (.start _ ⟨0, rfl⟩)
      (System.runMeets_always _ _) (Option.some_get _).symm
  have apart : Apart sampleHex sampleWorld.drawn := by
    have two : sampleWorld.drawn = 2 := by decide +kernel
    rw [two]
    unfold Apart
    decide
  obtain ⟨-, -, -, gone, kept, -⟩ :=
    nonces_spent_once sampleServed sampleHex sampleWorld reached apart
  exact ⟨by decide +kernel, by decide +kernel, gone _ (by decide +kernel),
    kept (sampleHex 1, 600) (by decide +kernel) (by decide +kernel) (by decide +kernel)⟩

end RhPools.GateNonces
