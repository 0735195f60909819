import Mathlib.Data.List.Sort
import Mathlib.Data.String.Basic
import RhPools.FlowEvents

/-! Pages of public Fomo flow and their projections. A page is checked for the query that
fetched it; what another query of the same cache key can make of it is settled here: an Apollo
page is projected for every chain or for none, and a tape for every limit that reaches
well-formed rows only. -/

namespace RhPools.FlowPages

open PyValues FlowEvents EventWords

inductive Publisher where
  | apollo
  | rhtrenches
deriving DecidableEq

def RHTRENCHES_FETCH_LIMIT : Nat := 100

/-- A query as `_query` accepts it. -/
structure FlowQuery where
  source : Publisher
  chain : Option String
  cursor : Option String
  limit : Nat
  verified : Bool
  limited : 1 ≤ limit ∧ limit ≤ 100
  supported : ∀ name ∈ chain, name ∈ SUPPORTED_CHAINS
  cursors : ∀ text ∈ cursor, cursorText text = true
  tape : source = .rhtrenches → chain = some "robinhood" ∧ cursor = none ∧ verified = false

structure UpstreamPage where
  origin : String
  payload : Value
  status : Option Dict
  retrievedAt : String

structure RhStatus where
  trackedWallets : Int
  sourceTransport : String
  lastBlock : String
  lastEvent : Option (String × String)
  server : String × String
  lagSeconds : Option String
  indexerAge : Option String
  sampleCount : Int
  median : Option String
  p90 : Option String
  since : Option (String × String)

structure Projection where
  items : List FlowItem
  nextCursor : Option String
  readAt : String
  evidenceThrough : Option String
  upstreamOrigin : String
  retrievedAt : String
  upstreamReadAt : String
  upstreamEvidenceThrough : Option String
  requestedChain : Option String
  upstreamPageItems : Nat
  upstreamFetchItems : Option Nat
  returnedItems : Nat
  itemsFilteredByChain : Nat
  publisherStatus : Option RhStatus
  rowsOmitted : List (String × Nat)

section Projections

variable (library : Library) (lower : String → String)

structure ApolloPage where
  items : List FlowItem
  readAt : String
  evidence : Option String
  nextCursor : Option String

def nextCursorOf : Value → Checked (Option String)
  | .none => .ok none
  | .str text =>
    if cursorText text then .ok (some text)
    else .error (.contract "Apollo flow response has an invalid nextCursor")
  | _ => .error (.contract "Apollo flow response has an invalid nextCursor")

def boundedItems (limit : Nat) : Value → Checked (List Value)
  | .list items =>
    if limit < items.length then
      .error (.contract "Apollo flow response has an invalid bounded items page")
    else .ok items
  | _ => .error (.contract "Apollo flow response has an invalid bounded items page")

/-- The checks of `_apollo_response`. -/
def apolloPage (limit : Nat) (verified : Bool) (payload : Value) : Checked ApolloPage := do
  let page ← object payload "page" APOLLO
  let rawItems ← boundedItems limit (Dict.get page "items")
  let items ← rawItems.mapM (apolloEvent library)
  if verified && items.any fun item => item.identity.kind ≠ "verified-fomo" then
    .error (.contract "Apollo verified flow included a non-verified identity")
  else
    let readAt ← iso library "readAt" APOLLO (Dict.get page "readAt")
    let evidence ← nullable (iso library "evidenceThrough" APOLLO) (Dict.get page "evidenceThrough")
    if evidence ≠ latest library (items.filterMap fun item => item.evidence.observedAt) then
      .error (.contract "Apollo flow evidenceThrough does not match the newest returned observation")
    else
      let nextCursor ← nextCursorOf (Dict.get page "nextCursor")
      .ok ⟨items, readAt, evidence, nextCursor⟩

def apolloResponse (query : FlowQuery) (upstream : UpstreamPage) : Checked Projection := do
  let page ← apolloPage library query.limit query.verified upstream.payload
  let selected := page.items.filter fun item =>
    query.chain = none ∨ query.chain = some item.asset.chain
  .ok
    { items := selected
      nextCursor := page.nextCursor
      readAt := page.readAt
      evidenceThrough := latest library (selected.filterMap fun item => item.evidence.observedAt)
      upstreamOrigin := upstream.origin
      retrievedAt := upstream.retrievedAt
      upstreamReadAt := page.readAt
      upstreamEvidenceThrough := page.evidence
      requestedChain := query.chain
      upstreamPageItems := page.items.length
      upstreamFetchItems := none
      returnedItems := selected.length
      itemsFilteredByChain := page.items.length - selected.length
      publisherStatus := none
      rowsOmitted := [] }

def isTrue : Value → Bool
  | .bool true => true
  | _ => false

def isNumber (number : Int) : Value → Bool
  | .int other => other = number
  | _ => false

/-- `_rh_status`. -/
def rhStatus (value : Dict) : Checked RhStatus := do
  if !isTrue (value.get "ok") || !(value.get "chain").is "robinhood" ||
      !isNumber 4663 (value.get "chain_id") then
    .error (.contract "RH Trenches status did not identify live Robinhood Chain 4663")
  else
    let lastEvent ← nullable (epoch library "status.last_ts") (value.get "last_ts")
    let server ← epoch library "status.server_ts" (value.get "server_ts")
    let latency ← object (value.get "latency") "status.latency" RH_TRENCHES
    let since ← nullable (epoch library "status.latency.since") (Dict.get latency "since")
    let sourceTransport ← text (value.get "source") "status.source" RH_TRENCHES 64
    let wallets ← integer (value.get "wallets") "status.wallets" RH_TRENCHES 0
    let lastBlock ← integer (value.get "last_block") "status.last_block" RH_TRENCHES 0
    let lag ← nullable (reportedDecimal library "status.lag_seconds") (value.get "lag_seconds")
    let age ← nullable (reportedDecimal library "status.indexer_age") (value.get "indexer_age")
    let count ← integer (Dict.get latency "n") "status.latency.n" RH_TRENCHES 0
    let median ← nullable (reportedDecimal library "status.latency.median") (Dict.get latency "median")
    let p90 ← nullable (reportedDecimal library "status.latency.p90") (Dict.get latency "p90")
    .ok ⟨wallets, sourceTransport, toString lastBlock, lastEvent, server, lag, age, count, median, p90,
      since⟩

def boundedTape : Value → Checked (List Value)
  | .list rows =>
    if RHTRENCHES_FETCH_LIMIT < rows.length then
      .error (.contract "RH Trenches flow response has an invalid bounded tape")
    else .ok rows
  | _ => .error (.contract "RH Trenches flow response has an invalid bounded tape")

def presentStatus : Option Dict → Checked Dict
  | none => .error (.contract "RH Trenches status response is absent")
  | some status => .ok status

/-- `dict(sorted(omissions.items()))`. -/
def omissions (reasons : List String) : List (String × Nat) :=
  (reasons.dedup.insertionSort (· ≤ ·)).map fun reason => (reason, reasons.count reason)

def rhResponse (query : FlowQuery) (upstream : UpstreamPage) : Checked Projection := do
  let tape ← boundedTape upstream.payload
  let rows ← (tape.take query.limit).mapM (rhEvent library lower)
  let raw ← presentStatus upstream.status
  let status ← rhStatus library raw
  let selected := rows.filterMap Sum.getLeft?
  .ok
    { items := selected
      nextCursor := none
      readAt := upstream.retrievedAt
      evidenceThrough := latest library (selected.filterMap fun item => item.evidence.occurredAt)
      upstreamOrigin := upstream.origin
      retrievedAt := upstream.retrievedAt
      upstreamReadAt := status.server.1
      upstreamEvidenceThrough := status.lastEvent.map Prod.fst
      requestedChain := some "robinhood"
      upstreamPageItems := (tape.take query.limit).length
      upstreamFetchItems := some tape.length
      returnedItems := selected.length
      itemsFilteredByChain := 0
      publisherStatus := some status
      rowsOmitted := omissions (rows.filterMap Sum.getRight?) }

/-- `_project`. -/
def project (query : FlowQuery) (page : UpstreamPage) : Checked Projection :=
  match query.source with
  | .apollo => apolloResponse library query page
  | .rhtrenches => rhResponse library lower query page

end Projections

def FlowQuery.key (query : FlowQuery) : Publisher × Option String × Nat × Bool :=
  match query.source with
  | .rhtrenches => (.rhtrenches, none, RHTRENCHES_FETCH_LIMIT, false)
  | .apollo => (.apollo, query.cursor, query.limit, query.verified)

def wellFormed (library : Library) (lower : String → String) (row : Value) : Prop :=
  ∃ read, rhEvent library lower row = .ok read

/-- Every row of the stored tape that the limit of a query reaches is well formed; an Apollo page
has no row that a query reaches and another one of its key does not. -/
def Reaches (library : Library) (lower : String → String) (query : FlowQuery) (page : UpstreamPage) :
    Prop :=
  query.source = .rhtrenches → ∀ tape, boundedTape page.payload = .ok tape →
    ∀ row ∈ tape.take query.limit, wellFormed library lower row

section Serving

variable {library : Library} {lower : String → String} {query leader : FlowQuery}
  {page : UpstreamPage}

theorem key_source (same : query.key = leader.key) : query.source = leader.source := by
  unfold FlowQuery.key at same
  cases first : query.source <;> cases second : leader.source <;> simp_all

theorem key_apollo (same : query.key = leader.key) (apollo : leader.source = .apollo) :
    query.limit = leader.limit ∧ query.verified = leader.verified := by
  have source := (key_source same).trans apollo
  simp only [FlowQuery.key, source, apollo, Prod.mk.injEq] at same
  exact ⟨same.2.2.1, same.2.2.2⟩

theorem mapM_returns {Error Item Result : Type} (step : Item → Except Error Result)
    (items : List Item) : (∃ results, items.mapM step = .ok results) ↔
      ∀ item ∈ items, ∃ result, step item = .ok result := by
  constructor
  · rintro ⟨results, read⟩ item member
    obtain ⟨result, -, same⟩ := related_left ((mapM_ok step items results).mp read) item member
    exact ⟨result, same⟩
  · intro each
    induction items with
    | nil => exact ⟨[], rfl⟩
    | cons item rest ih =>
      obtain ⟨first, read⟩ := each item List.mem_cons_self
      obtain ⟨results, others⟩ := ih fun other member => each other (List.mem_cons_of_mem _ member)
      exact ⟨first :: results, (mapM_ok _ _ _).mpr (.cons read ((mapM_ok _ _ _).mp others))⟩

theorem rhResponse_ok (library : Library) (lower : String → String) (query : FlowQuery)
    (page : UpstreamPage) : (∃ answer, rhResponse library lower query page = .ok answer) ↔
      (∃ tape, boundedTape page.payload = .ok tape ∧
        ∀ row ∈ tape.take query.limit, wellFormed library lower row) ∧
      ∃ raw status, presentStatus page.status = .ok raw ∧ rhStatus library raw = .ok status := by
  unfold rhResponse
  constructor
  · rintro ⟨answer, returned⟩
    obtain ⟨tape, bounded, rest⟩ := (bind_ok _ _ _).mp returned
    obtain ⟨rows, read, rest⟩ := (bind_ok _ _ _).mp rest
    obtain ⟨raw, present, rest⟩ := (bind_ok _ _ _).mp rest
    obtain ⟨status, live, -⟩ := (bind_ok _ _ _).mp rest
    exact ⟨⟨tape, bounded, (mapM_returns _ _).mp ⟨rows, read⟩⟩, raw, status, present, live⟩
  · rintro ⟨⟨tape, bounded, passes⟩, raw, status, present, live⟩
    obtain ⟨rows, read⟩ := (mapM_returns (rhEvent library lower) _).mpr passes
    exact ⟨_, (bind_ok _ _ _).mpr ⟨tape, bounded, (bind_ok _ _ _).mpr ⟨rows, read,
      (bind_ok _ _ _).mpr ⟨raw, present, (bind_ok _ _ _).mpr ⟨status, live, rfl⟩⟩⟩⟩⟩

theorem apolloResponse_ok (library : Library) (query : FlowQuery) (page : UpstreamPage) :
    (∃ answer, apolloResponse library query page = .ok answer) ↔
      ∃ checked, apolloPage library query.limit query.verified page.payload = .ok checked := by
  unfold apolloResponse
  constructor
  · rintro ⟨answer, returned⟩
    obtain ⟨checked, passed, -⟩ := (bind_ok _ _ _).mp returned
    exact ⟨checked, passed⟩
  · rintro ⟨checked, passed⟩
    exact ⟨_, (bind_ok _ _ _).mpr ⟨checked, passed, rfl⟩⟩

/-- A page that was projected for one query of its key is projected for another one exactly when
the limit of that one reaches well-formed rows only. -/
theorem project_shared (same : query.key = leader.key)
    (accepted : ∃ answer, project library lower leader page = .ok answer) :
    (∃ answer, project library lower query page = .ok answer) ↔ Reaches library lower query page := by
  have source := key_source same
  unfold project at accepted ⊢
  cases led : leader.source with
  | apollo =>
    obtain ⟨limit, verified⟩ := key_apollo same led
    rw [source, led]
    simp only [led] at accepted
    have answers : ∃ answer, apolloResponse library query page = .ok answer := by
      rw [apolloResponse_ok] at accepted ⊢
      rwa [limit, verified]
    refine iff_of_true answers fun tape => ?_
    rw [source, led] at tape
    cases tape
  | rhtrenches =>
    rw [source, led]
    simp only [led] at accepted
    obtain ⟨⟨tape, bounded, -⟩, status⟩ := (rhResponse_ok library lower leader page).mp accepted
    rw [rhResponse_ok]
    constructor
    · rintro ⟨⟨other, again, passes⟩, -⟩ _ third
      rw [again]
      rintro here
      cases here
      exact passes
    · intro reaches
      exact ⟨⟨tape, bounded, reaches (source.trans led) tape bounded⟩, status⟩

theorem reaches_of_le (accepted : ∃ answer, project library lower leader page = .ok answer)
    (same : query.key = leader.key) (fewer : query.limit ≤ leader.limit) :
    Reaches library lower query page := by
  intro tape_source tape bounded row member
  have led := (key_source same).symm.trans tape_source
  unfold project at accepted
  simp only [led] at accepted
  obtain ⟨⟨other, again, passes⟩, -⟩ := (rhResponse_ok library lower leader page).mp accepted
  rw [bounded] at again
  cases again
  exact passes row ((List.take_subset_take_left _ fewer) member)

end Serving

end RhPools.FlowPages
