import Mathlib.Data.Rat.Floor
import RhPools.FlowPages
import RhPools.SqlTables

/-! `FomoFlowService`: pages by cache key, a circuit for each publisher, and calls that follow
one another. A stored page was projected for the query that fetched it; a later query of its
key is served it fresh, after a failed refresh or behind an open circuit, and then it is
projected once more. -/

namespace RhPools.FlowServices

open OrderedTables FlowEvents FlowPages

abbrev Key := Publisher × Option String × Nat × Bool

/-- What a read or a call raises: a `FomoFlowError`, or something else, such as the `ValueError`
of a rejected cursor. -/
inductive Raised where
  | flow (fault : Fault)
  | other (text : String)
deriving DecidableEq

structure Circuit where
  failures : Nat
  openUntil : ℚ
  openUntilAt : Option String
  lastError : Option String

def Circuit.fresh : Circuit := ⟨0, 0, none, none⟩

def CIRCUIT_FAILURE_THRESHOLD : Nat := 3
def CIRCUIT_OPEN_SECONDS : ℚ := 60

/-- `wall` is the clock's text for the end of the opening. -/
def Circuit.recordFailure (circuit : Circuit) (now : ℚ) (wall error : String) : Circuit :=
  let counted := { circuit with failures := circuit.failures + 1, lastError := some error }
  if CIRCUIT_FAILURE_THRESHOLD ≤ counted.failures then
    { counted with openUntil := now + CIRCUIT_OPEN_SECONDS, openUntilAt := some wall }
  else counted

def Circuit.isOpen (circuit : Circuit) (now : ℚ) : Prop := now < circuit.openUntil

instance (circuit : Circuit) (now : ℚ) : Decidable (circuit.isOpen now) :=
  inferInstanceAs (Decidable (now < circuit.openUntil))

structure OpenCircuit where
  consecutiveFailures : Nat
  openUntil : Option String
  retryAfterSeconds : Int
  lastError : Option String

def Circuit.describe (circuit : Circuit) (now : ℚ) : Option OpenCircuit :=
  if circuit.isOpen now then
    some ⟨circuit.failures, circuit.openUntilAt, max 0 (circuit.openUntil - now).floor,
      circuit.lastError⟩
  else none

structure Settings where
  library : Library
  lower : String → String
  cacheTtl : ℚ
  maxCacheEntries : Nat
  ttls : 10 ≤ cacheTtl ∧ cacheTtl ≤ 60
  entries : 1 ≤ maxCacheEntries ∧ maxCacheEntries ≤ 256

structure FomoFlowService where
  cache : OrderedTable Key (ℚ × UpstreamPage)
  /-- The keys whose page some call is fetching. -/
  pending : List Key
  circuits : Publisher → Circuit
  closed : Bool

def FomoFlowService.fresh : FomoFlowService := ⟨.empty, [], fun _ => .fresh, false⟩

/-- What a call meets: its clock, what `_fetch` brings, or what waiting for another call's fetch
brings, where a timeout is a fault. -/
structure Turn where
  entered : ℚ
  read : Except Raised UpstreamPage
  ended : ℚ
  fellBack : ℚ
  wall : String
  waited : Except Raised UpstreamPage

structure Served where
  page : UpstreamPage
  staleReason : Option String
  circuit : Option OpenCircuit

/-- `_last_good`. -/
def FomoFlowService.lastGood (service : FomoFlowService) (key : Key) (fault : Fault) (now : ℚ) :
    Except Raised Served :=
  match service.cache.get key with
  | none => .error (.flow fault)
  | some (_, page) => .ok ⟨page, some fault.text, (service.circuits key.1).describe now⟩

def fail (message : String) (retryAfter : Option String) : Except Raised Served :=
  .error (.flow (.unavailable message none retryAfter))

def accept (settings : Settings) (query : FlowQuery) (read : Except Raised UpstreamPage) :
    Except Raised UpstreamPage :=
  match read with
  | .error raised => .error raised
  | .ok page =>
    match project settings.library settings.lower query page with
    | .error fault => .error (.flow fault)
    | .ok _ => .ok page

def FomoFlowService.lead (settings : Settings) (query : FlowQuery) (turn : Turn)
    (service : FomoFlowService) : Except Raised Served × FomoFlowService :=
  let ended := { service with pending := service.pending.erase query.key }
  match accept settings query turn.read with
  | .error (.other text) => (.error (.other text), ended)
  | .error (.flow fault) =>
    let failed := { ended with
      circuits := Function.update ended.circuits query.source
        ((ended.circuits query.source).recordFailure turn.ended turn.wall fault.text) }
    (failed.lastGood query.key fault turn.fellBack, failed)
  | .ok page =>
    let succeeded := { ended with circuits := Function.update ended.circuits query.source .fresh }
    let stored := if service.closed then succeeded else { succeeded with
      cache := (succeeded.cache.put query.key (turn.ended, page)).trim settings.maxCacheEntries }
    (.ok ⟨page, none, none⟩, stored)

/-- `_page`. -/
def FomoFlowService.page (settings : Settings) (query : FlowQuery) (turn : Turn)
    (service : FomoFlowService) : Except Raised Served × FomoFlowService :=
  if service.closed then (fail "Fomo flow service is closed" none, service)
  else
    let cached := service.cache.get query.key
    match cached.filter fun entry => turn.entered - entry.1 < settings.cacheTtl with
    | some (_, page) =>
      (.ok ⟨page, none, none⟩, { service with cache := service.cache.touch query.key })
    | none =>
      let circuit := service.circuits query.source
      let error := circuit.lastError.getD "None"
      if circuit.isOpen turn.entered then
        match cached with
        | some (_, page) =>
          (.ok ⟨page, some ("publisher circuit open: " ++ error), circuit.describe turn.entered⟩,
            service)
        | none =>
          (fail ("publisher circuit open after " ++ toString circuit.failures ++
            " consecutive failures: " ++ error)
            ((circuit.describe turn.entered).map fun described =>
              toString described.retryAfterSeconds), service)
      else if query.key ∈ service.pending then
        match turn.waited with
        | .ok page => (.ok ⟨page, none, none⟩, service)
        | .error (.flow fault) => (service.lastGood query.key fault turn.fellBack, service)
        | .error (.other text) => (.error (.other text), service)
      else if settings.maxCacheEntries ≤ service.pending.length then
        (fail "public flow read capacity is exhausted" none, service)
      else
        { service with pending := query.key :: service.pending }.lead settings query turn

structure Answer where
  query : FlowQuery
  projection : Projection
  staleReason : Option String
  circuit : Option OpenCircuit

def FomoFlowService.flow (settings : Settings) (query : FlowQuery) (turn : Turn)
    (service : FomoFlowService) : Except Raised Answer × FomoFlowService :=
  match service.page settings query turn with
  | (.error raised, after) => (.error raised, after)
  | (.ok served, after) =>
    match project settings.library settings.lower query served.page with
    | .error fault => (.error (.flow fault), after)
    | .ok projection => (.ok ⟨query, projection, served.staleReason, served.circuit⟩, after)

def FomoFlowService.close (service : FomoFlowService) : FomoFlowService :=
  { service with closed := true, cache := .empty }

inductive Action where
  | call (query : FlowQuery) (turn : Turn)
  | close

def FomoFlowService.act (settings : Settings) (service : FomoFlowService) : Action → FomoFlowService
  | .call query turn => (service.flow settings query turn).2
  | .close => service.close

def run (settings : Settings) (actions : List Action) : FomoFlowService :=
  actions.foldl (FomoFlowService.act settings) .fresh

section Runs

variable {settings : Settings}

def Accepted (settings : Settings) (key : Key) (page : UpstreamPage) : Prop :=
  ∃ leader : FlowQuery, leader.key = key ∧
    ∃ answer, project settings.library settings.lower leader page = .ok answer

structure Sound (settings : Settings) (service : FomoFlowService) : Prop where
  accepted : ∀ key entry, service.cache.get key = some entry → Accepted settings key entry.2
  idle : service.pending = []
  empty : service.closed = true → ∀ key, service.cache.get key = none

theorem Sound.fresh : Sound settings .fresh :=
  ⟨fun _ _ stored => (nomatch stored), rfl, fun closed => (nomatch closed)⟩

variable {query : FlowQuery} {turn : Turn} {service : FomoFlowService}
  {read : Except Raised UpstreamPage}

theorem accept_ok {page : UpstreamPage} (accepted : accept settings query read = .ok page) :
    read = .ok page ∧ ∃ answer, project settings.library settings.lower query page = .ok answer := by
  unfold accept at accepted
  split at accepted
  · cases accepted
  · split at accepted
    · cases accepted
    · rename_i answer projected
      cases accepted
      exact ⟨rfl, answer, projected⟩

theorem accept_fault {fault : Fault} (refused : accept settings query read = .error (.flow fault)) :
    read = .error (.flow fault) ∨ ∃ page, read = .ok page ∧
      ¬ ∃ answer, project settings.library settings.lower query page = .ok answer := by
  unfold accept at refused
  split at refused
  · cases refused
    exact .inl rfl
  · rename_i page
    refine .inr ⟨page, rfl, ?_⟩
    rintro ⟨answer, projected⟩
    rw [projected] at refused
    cases refused

theorem accept_other {text : String} (raised : accept settings query read = .error (.other text)) :
    read = .error (.other text) := by
  unfold accept at raised
  split at raised
  · cases raised
    rfl
  · split at raised <;> cases raised

theorem get_touch (table : OrderedTable Key (ℚ × UpstreamPage)) (key other : Key) :
    (table.touch key).get other = table.get other := by
  apply Option.ext
  intro entry
  rw [get_some, get_some, mem_touch]

theorem lead_sound (sound : Sound settings service) (open_ : service.closed = false) :
    Sound settings ({ service with pending := query.key :: service.pending }.lead settings query turn).2 := by
  have idle : (query.key :: service.pending).erase query.key = [] := by
    rw [List.erase_cons_head, sound.idle]
  unfold FomoFlowService.lead
  split
  · exact ⟨sound.accepted, idle, sound.empty⟩
  · exact ⟨sound.accepted, idle, sound.empty⟩
  · rename_i page accepted
    simp only [open_, Bool.false_eq_true, if_false]
    refine ⟨fun key entry stored => ?_, idle, fun closed => (nomatch closed)⟩
    have member := mem_trim _ _ _ ((get_some _ _ _).mp stored)
    rcases (mem_put _ _ _ _).mp member with ⟨old, -⟩ | same
    · exact sound.accepted key entry ((get_some _ _ _).mpr old)
    · obtain ⟨rfl, rfl⟩ := Prod.mk.inj same
      exact ⟨query, rfl, (accept_ok accepted).2⟩

theorem page_sound (sound : Sound settings service) :
    Sound settings (service.page settings query turn).2 := by
  unfold FomoFlowService.page
  split
  · exact sound
  · rename_i open_
    have open_ : service.closed = false := by simpa using open_
    dsimp only
    split
    · refine ⟨fun key entry stored => ?_, sound.idle, fun closed key => ?_⟩
      · rw [get_touch] at stored
        exact sound.accepted key entry stored
      · rw [get_touch]
        exact sound.empty closed key
    · split
      · split <;> exact sound
      · split
        · split <;> exact sound
        · split
          · exact sound
          · exact lead_sound sound open_

theorem flow_service (settings : Settings) (query : FlowQuery) (turn : Turn)
    (service : FomoFlowService) :
    (service.flow settings query turn).2 = (service.page settings query turn).2 := by
  unfold FomoFlowService.flow
  cases service.page settings query turn with
  | mk result after =>
    cases result with
    | error raised => rfl
    | ok served =>
      simp only
      split <;> rfl

theorem run_sound (settings : Settings) (actions : List Action) : Sound settings (run settings actions) := by
  induction actions using List.reverseRecOn with
  | nil => exact .fresh
  | append_singleton actions action ih =>
    rw [run, List.foldl_append]
    cases action with
    | call query turn =>
      show Sound settings ((run settings actions).flow settings query turn).2
      rw [flow_service]
      exact page_sound ih
    | close => exact ⟨fun _ _ stored => (nomatch stored), ih.idle, fun _ _ => rfl⟩

def FromStore (settings : Settings) (service : FomoFlowService) (query : FlowQuery) (turn : Turn)
    (storedAt : ℚ) : Prop :=
  turn.entered - storedAt < settings.cacheTtl ∨
    (service.circuits query.source).isOpen turn.entered

/-- When a query is served: by the stored page, if its limit reaches well-formed rows of it only;
or by a fetch that its own projection accepts. A fetch that ends in something else than a
`FomoFlowError` is not served at all. -/
def Serves (settings : Settings) (service : FomoFlowService) (query : FlowQuery) (turn : Turn)
    (storedAt : ℚ) (page : UpstreamPage) : Prop :=
  (FromStore settings service query turn storedAt ∧
      Reaches settings.library settings.lower query page) ∨
    (¬ FromStore settings service query turn storedAt ∧
      match turn.read with
      | .ok fresh =>
        (∃ answer, project settings.library settings.lower query fresh = .ok answer) ∨
          Reaches settings.library settings.lower query page
      | .error (.flow _) => Reaches settings.library settings.lower query page
      | .error (.other _) => False)

theorem lead_cases {storedAt : ℚ} {page : UpstreamPage}
    (stored : service.cache.get query.key = some (storedAt, page)) :
    (∃ fresh, accept settings query turn.read = .ok fresh ∧
        ∃ served, (service.lead settings query turn).1 = .ok served ∧ served.page = fresh) ∨
      ((∃ fault, accept settings query turn.read = .error (.flow fault)) ∧
        ∃ served, (service.lead settings query turn).1 = .ok served ∧ served.page = page) ∨
      ∃ text, accept settings query turn.read = .error (.other text) ∧
        (service.lead settings query turn).1 = .error (.other text) := by
  unfold FomoFlowService.lead
  cases accepted : accept settings query turn.read with
  | ok fresh => exact .inl ⟨fresh, rfl, _, rfl, rfl⟩
  | error raised =>
    cases raised with
    | flow fault =>
      refine .inr (.inl ⟨⟨fault, rfl⟩, ?_⟩)
      simp only [FomoFlowService.lastGood, stored]
      exact ⟨_, rfl, rfl⟩
    | other text => exact .inr (.inr ⟨text, rfl, rfl⟩)

theorem page_cases (sound : Sound settings service) {storedAt : ℚ} {page : UpstreamPage}
    (stored : service.cache.get query.key = some (storedAt, page)) :
    (FromStore settings service query turn storedAt ∧
        ∃ served, (service.page settings query turn).1 = .ok served ∧ served.page = page) ∨
      (¬ FromStore settings service query turn storedAt ∧
        ((∃ fresh, accept settings query turn.read = .ok fresh ∧
            ∃ served, (service.page settings query turn).1 = .ok served ∧ served.page = fresh) ∨
          ((∃ fault, accept settings query turn.read = .error (.flow fault)) ∧
            ∃ served, (service.page settings query turn).1 = .ok served ∧ served.page = page) ∨
          ∃ text, accept settings query turn.read = .error (.other text) ∧
            (service.page settings query turn).1 = .error (.other text))) := by
  have open_ : ¬ service.closed = true := by
    intro closed
    rw [sound.empty closed] at stored
    cases stored
  unfold FomoFlowService.page
  rw [if_neg open_]
  simp only [stored]
  by_cases young : turn.entered - storedAt < settings.cacheTtl
  · have kept : (some (storedAt, page)).filter
        (fun entry => decide (turn.entered - entry.1 < settings.cacheTtl)) = some (storedAt, page) :=
      if_pos (decide_eq_true young)
    rw [kept]
    exact .inl ⟨.inl young, _, rfl, rfl⟩
  · have dropped : (some (storedAt, page)).filter
        (fun entry => decide (turn.entered - entry.1 < settings.cacheTtl)) = none :=
      if_neg (by simpa using young)
    rw [dropped]
    by_cases opened : (service.circuits query.source).isOpen turn.entered
    · simp only [if_pos opened]
      exact .inl ⟨.inr opened, _, rfl, rfl⟩
    · -- no read is pending between calls, so this one leads
      have nobody : query.key ∉ service.pending := by
        rw [sound.idle]
        exact List.not_mem_nil
      have room : ¬ settings.maxCacheEntries ≤ service.pending.length := by
        rw [sound.idle, List.length_nil]
        exact not_le.mpr settings.entries.1
      simp only [if_neg opened, if_neg nobody, if_neg room]
      exact .inr ⟨fun either => either.elim young opened,
        @lead_cases settings query turn { service with pending := query.key :: service.pending }
          storedAt page stored⟩

theorem flow_served {served : Served} (serves : (service.page settings query turn).1 = .ok served) :
    (∃ fault, project settings.library settings.lower query served.page = .error fault ∧
        (service.flow settings query turn).1 = .error (.flow fault)) ∨
      ∃ projection, project settings.library settings.lower query served.page = .ok projection ∧
        (service.flow settings query turn).1 =
          .ok ⟨query, projection, served.staleReason, served.circuit⟩ := by
  unfold FomoFlowService.flow
  cases paged : service.page settings query turn with
  | mk result after =>
    rw [paged] at serves
    obtain rfl : result = .ok served := serves
    simp only
    cases projected : project settings.library settings.lower query served.page with
    | error fault => exact .inl ⟨fault, rfl, rfl⟩
    | ok projection => exact .inr ⟨projection, rfl, rfl⟩

/-- The property: a projection of the stored page, or of a fresh one, and nothing raised. -/
def Answers (settings : Settings) (service : FomoFlowService) (query : FlowQuery) (turn : Turn)
    (page : UpstreamPage) : Prop :=
  ∃ answer, (service.flow settings query turn).1 = .ok answer ∧
    (project settings.library settings.lower query page = .ok answer.projection ∨
      ∃ fresh, turn.read = .ok fresh ∧
        project settings.library settings.lower query fresh = .ok answer.projection)

theorem answers_stored {page : UpstreamPage} {served : Served}
    (accepted : Accepted settings query.key page)
    (serves : (service.page settings query turn).1 = .ok served) (same : served.page = page) :
    Answers settings service query turn page ↔
      Reaches settings.library settings.lower query page := by
  obtain ⟨leader, key, projected⟩ := accepted
  rw [← project_shared key.symm projected]
  subst same
  rcases flow_served serves with ⟨fault, refused, raised⟩ | ⟨projection, passed, returned⟩
  · constructor
    · rintro ⟨answer, returned, -⟩
      rw [raised] at returned
      cases returned
    · rintro ⟨answer, passed⟩
      rw [refused] at passed
      cases passed
  · exact iff_of_true ⟨_, returned, .inl passed⟩ ⟨projection, passed⟩

/-- In every run, a call whose key has a page answers with a projection of that page or of a fresh
one, exactly when it is served. -/
theorem flow_serves (settings : Settings) (actions : List Action) (query : FlowQuery) (turn : Turn)
    {storedAt : ℚ} {page : UpstreamPage}
    (stored : (run settings actions).cache.get query.key = some (storedAt, page)) :
    Answers settings (run settings actions) query turn page ↔
      Serves settings (run settings actions) query turn storedAt page := by
  have sound := run_sound settings actions
  have accepted := sound.accepted query.key (storedAt, page) stored
  rcases page_cases sound stored with ⟨from_store, served, serves, same⟩ |
    ⟨fetches, ⟨fresh, read, served, serves, same⟩ | ⟨⟨fault, failed⟩, served, serves, same⟩ |
      ⟨text, failed, raises⟩⟩
  · rw [answers_stored accepted serves same]
    exact ⟨fun reaches => .inl ⟨from_store, reaches⟩,
      fun either => either.elim And.right fun other => absurd from_store other.1⟩
  · obtain ⟨fetched, projected⟩ := accept_ok read
    refine iff_of_true ?_ (.inr ⟨fetches, ?_⟩)
    · rcases flow_served serves with ⟨fault, refused, -⟩ | ⟨projection, passed, returned⟩
      · obtain ⟨answer, passed⟩ := projected
        rw [same, passed] at refused
        cases refused
      · exact ⟨_, returned, .inr ⟨fresh, fetched, same ▸ passed⟩⟩
    · rw [fetched]
      exact .inl projected
  · rw [answers_stored accepted serves same]
    rcases accept_fault failed with read | ⟨fresh, read, refused⟩
    · rw [Serves, read]
      exact ⟨fun reaches => .inr ⟨fetches, reaches⟩,
        fun either => either.elim And.right And.right⟩
    · rw [Serves, read]
      exact ⟨fun reaches => .inr ⟨fetches, .inr reaches⟩,
        fun either => either.elim And.right fun other => other.2.resolve_left refused⟩
  · refine iff_of_false ?_ ?_
    · rintro ⟨answer, returned, -⟩
      unfold FomoFlowService.flow at returned
      cases paged : (run settings actions).page settings query turn with
      | mk result after =>
        rw [paged] at raises returned
        obtain rfl : result = .error (.other text) := raises
        cases returned
    · rw [Serves, accept_other failed]
      exact fun either => either.elim (fun served => fetches served.1) And.right

end Runs

/-! A tape whose second row is null, fetched for one row and then asked for two. -/

def plainLibrary : Library :=
  ⟨fun text => some text, fun _ => some (some 1000), fun _ => "1970-01-01T00:00:01.000Z"⟩

def plain : Settings := ⟨plainLibrary, id, 30, 64, by decide, by decide⟩

def tapeRow : PyValues.Value := .dict
  [("id", .int 1), ("ts", .int 1),
    ("tx", .str "0xaaaaaaaaaaaaaaaaaaaaaaaaaaaaaaaaaaaaaaaaaaaaaaaaaaaaaaaaaaaaaaaa"),
    ("block", .int 1), ("side", .str "buy"),
    ("wallet", .str "0xcccccccccccccccccccccccccccccccccccccccc"),
    ("token", .str "0xdddddddddddddddddddddddddddddddddddddddd"), ("handle", .str "published_handle"),
    ("flags", .list [])]

def tapeStatus : PyValues.Dict :=
  [("ok", .bool true), ("chain", .str "robinhood"), ("chain_id", .int 4663), ("server_ts", .int 1),
    ("latency", .dict [("n", .int 0)]), ("source", .str "websocket"), ("wallets", .int 147),
    ("last_block", .int 1)]

def tapePage : UpstreamPage :=
  ⟨"https://rhtrenches.com", .list [tapeRow, .none], some tapeStatus, "1970-01-01T00:00:01.000Z"⟩

def tapeQuery (limit : Nat) (limited : 1 ≤ limit ∧ limit ≤ 100) : FlowQuery where
  source := .rhtrenches
  chain := some "robinhood"
  cursor := none
  limit := limit
  verified := false
  limited := limited
  supported := by
    rintro name same
    cases same
    decide
  cursors := fun _ none => (nomatch none)
  tape := fun _ => ⟨rfl, rfl, rfl⟩

def oneRow : FlowQuery := tapeQuery 1 (by decide)
def twoRows : FlowQuery := tapeQuery 2 (by decide)

def fetching : Turn := ⟨0, .ok tapePage, 1, 1, "", .error (.other "")⟩
def soonAfter : Turn := ⟨2, .ok tapePage, 3, 3, "", .error (.other "")⟩

/-- The text of the `FomoFlowError` that a call raises. -/
def faultText : Except Raised Answer → Option String
  | .error (.flow fault) => some fault.text
  | _ => none

theorem stored_tape :
    (run plain [.call oneRow fetching]).cache.get oneRow.key = some (1, tapePage) := by
  rfl

theorem flow_serves_one : Answers plain (run plain [.call oneRow fetching]) oneRow soonAfter tapePage :=
  (flow_serves plain [.call oneRow fetching] oneRow soonAfter stored_tape).mpr
    (.inl ⟨.inl (by decide +kernel), reaches_of_le ⟨_, rfl⟩ rfl le_rfl⟩)

/-- The page is stored, fresh and under the key of the query, and the call raises. -/
theorem flow_raises :
    twoRows.key = oneRow.key ∧
      ((run plain [.call oneRow fetching]).cache.get twoRows.key).isSome = true ∧
      faultText ((run plain [.call oneRow fetching]).flow plain twoRows soonAfter).1 =
        some "RH Trenches flow response has an invalid tape[]" := by
  refine ⟨rfl, ?_, ?_⟩
  · decide +kernel
  · decide +kernel

end RhPools.FlowServices
