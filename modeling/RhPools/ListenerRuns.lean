import RhPools.ListenerCoverage

/-! Runs of `facts` calls: what is stored after any of them, and what is read by one that
answers. -/

namespace RhPools.ListenerRuns

open OrderedTables ObservationWindows LogTails ListenerTails ListenerCoverage

def opened (listener : PostgresListener) : PostgresListener :=
  if listener.connected then listener else { listener with connected := true, cursors := .empty }

section Calls

variable {world : World} {settings : Settings} {windowS : Int}

variable (listener : PostgresListener)

theorem opened_connected : (opened listener).connected = true := by
  unfold opened
  split
  · assumption
  · rfl

theorem opened_asked : (opened listener).asked = listener.asked := by
  unfold opened
  split <;> rfl

theorem opened_pulled :
    (opened listener).pulled = listener.pulled := by
  unfold opened
  split <;> rfl

theorem opened_window :
    (opened listener).window = listener.window := by
  unfold opened
  split <;> rfl

theorem opened_mirrors {listener : PostgresListener} (mirrors : Mirrors settings windowS listener) :
    Mirrors settings windowS (opened listener) := by
  unfold opened
  split
  · exact mirrors
  · exact mirrors

theorem opened_stored {listener : PostgresListener} {name : String} {cursor : Int}
    (stored : (opened listener).cursors.get name = some cursor) :
    listener.connected = true ∧ listener.cursors.get name = some cursor := by
  unfold opened at stored
  split at stored
  · rename_i connected
    exact ⟨connected, stored⟩
  · cases stored

theorem query_cases {Answer : Type} (world : World) (read : Ledger → Answer)
    (listener : PostgresListener) :
    listener.query world read = (none, listener) ∨
      listener.query world read = (none, { listener with asked := listener.asked + 1 }) ∨
      listener.query world read = (none, { opened listener with asked := listener.asked + 1 }) ∨
      listener.query world read = (some (read (world.ledger listener.asked)),
        { opened listener with asked := listener.asked + 1 }) := by
  unfold PostgresListener.query
  by_cases connected : listener.connected = true
  · have same : opened listener = listener := if_pos connected
    rw [if_pos connected, same, PostgresListener.ask]
    by_cases breaks : world.breaks listener.asked = true
    · exact .inr (.inl (if_pos breaks))
    · exact .inr (.inr (.inr (if_neg breaks)))
  · have new : opened listener = { listener with connected := true, cursors := .empty } :=
      if_neg connected
    rw [if_neg connected, new, PostgresListener.ask]
    by_cases cooling : world.clock listener.asked < listener.retryAt
    · exact .inl (if_pos cooling)
    · rw [if_neg cooling]
      by_cases refused : world.refuses listener.asked = true
      · exact .inr (.inl (if_pos refused))
      · rw [if_neg refused]
        by_cases breaks : world.breaks listener.asked = true
        · exact .inr (.inr (.inl (if_pos breaks)))
        · exact .inr (.inr (.inr (if_neg breaks)))

def entered (listener : PostgresListener) : PostgresListener :=
  { opened listener with asked := listener.asked + 1 }

def tailed (world : World) (settings : Settings) (listener : PostgresListener) :
    Option Unit × PostgresListener :=
  refreshEach world settings (listener.sinceMs world)
    ((world.ledger listener.asked).live (listener.sinceMs world)) settings.tailBudget (entered listener)

theorem listed_live (sinceMs : Int) :
    ∀ entry ∈ (world.ledger listener.asked).live sinceMs,
      Listed world sinceMs (entered listener).asked entry := by
  rintro ⟨name, lastSequence⟩ member
  obtain ⟨last, ends, recent, same⟩ := (mem_live _ sinceMs name lastSequence).mp member
  have now : Listed world sinceMs listener.asked (name, lastSequence) :=
    ⟨last, List.mem_of_getLast? ends, recent, same⟩
  exact now.later (Nat.le_succ _)

theorem tailed_tails (world : World) (settings : Settings) (windowS : Int)
    (listener : PostgresListener) :
    Tails world settings windowS (listener.sinceMs world) (opened listener)
      (tailed world settings listener).2 := by
  have first : Tails world settings windowS (listener.sinceMs world) (opened listener)
      (entered listener) := by
    have next : Follows settings windowS (opened listener)
        { opened listener with asked := (opened listener).asked + 1 } := .asked_next _
    rw [opened_asked] at next
    exact next.tails _
  exact first.trans (refreshEach_tails world settings windowS _ _ _ (entered listener)
    (opened_connected listener) (listed_live listener _)).1

structure Idle (before after : PostgresListener) : Prop where
  pulled : after.pulled = before.pulled
  window : after.window = before.window
  asked : before.asked ≤ after.asked
  cursors : after.cursors = before.cursors ∨
    before.connected = false ∧ after.cursors = (opened before).cursors

structure Rests (before after : PostgresListener) : Prop where
  pulled : after.pulled = before.pulled
  window : after.window = before.window
  asked : before.asked ≤ after.asked
  cursors : after.cursors = before.cursors

theorem refreshLocked_cases (world : World) (settings : Settings) (listener : PostgresListener) :
    (∃ after, refreshLocked world settings listener = (false, after) ∧ Idle listener after) ∨
      (∃ after, refreshLocked world settings listener = (false, after) ∧
        Rests (tailed world settings listener).2 after) ∨
      ((tailed world settings listener).1 = some () ∧
        refreshLocked world settings listener = (true, (tailed world settings listener).2)) := by
  unfold refreshLocked
  by_cases cooling : listener.connected = false ∧ world.clock listener.asked < listener.retryAt
  · rw [if_pos cooling]
    exact .inl ⟨listener, rfl, rfl, rfl, le_rfl, .inl rfl⟩
  rw [if_neg cooling, refresh]
  rcases query_cases world (fun ledger => ledger.live (listener.sinceMs world)) listener with
    asked | asked | asked | asked
  · left
    simp only [asked]
    exact ⟨_, rfl, rfl, rfl, le_rfl, .inl rfl⟩
  · left
    simp only [asked]
    exact ⟨_, rfl, rfl, rfl, Nat.le_succ _, .inl rfl⟩
  · left
    simp only [asked]
    refine ⟨_, rfl, opened_pulled listener, opened_window listener, Nat.le_succ _, ?_⟩
    cases held : listener.connected with
    | true => exact .inl (by simp only [PostgresListener.fail, opened, held, if_true])
    | false => exact .inr ⟨rfl, rfl⟩
  · right
    simp only [asked]
    have whole : refreshEach world settings (listener.sinceMs world)
        ((world.ledger listener.asked).live (listener.sinceMs world)) settings.tailBudget
        { opened listener with asked := listener.asked + 1 } = tailed world settings listener := rfl
    rw [whole]
    cases result : tailed world settings listener with
    | mk reply after =>
      cases reply with
      | none => exact .inl ⟨_, rfl, rfl, rfl, le_rfl, rfl⟩
      | some done => exact .inr ⟨rfl, rfl⟩

theorem facts_cases (world : World) (settings : Settings) (envelopes : List TxEnvelope)
    (listener : PostgresListener) :
    ((facts world settings envelopes listener).1 = .empty ∧
        Idle listener (facts world settings envelopes listener).2) ∨
      (Rests (tailed world settings listener).2 (facts world settings envelopes listener).2 ∧
        ((tailed world settings listener).1 = some () ∨
          (facts world settings envelopes listener).1 = .empty)) := by
  unfold facts
  by_cases nobody : envelopes = []
  · rw [if_pos nobody]
    exact .inl ⟨rfl, rfl, rfl, le_rfl, .inl rfl⟩
  rw [if_neg nobody]
  rcases refreshLocked_cases world settings listener with
    ⟨after, failed, idle⟩ | ⟨after, failed, rests⟩ | ⟨done, refreshed⟩
  · rw [failed]
    exact .inl ⟨rfl, idle⟩
  · rw [failed]
    exact .inr ⟨rests, .inr rfl⟩
  · right
    simp only [refreshed]
    split
    · exact ⟨⟨rfl, rfl, le_rfl, rfl⟩, .inl done⟩
    · have standing : (tailed world settings listener).2.connected = true :=
        (refreshEach_tails world settings 0 _ _ _ (entered listener) (opened_connected listener)
          (listed_live listener _)).2
      have next := (query_connected world (fun ledger => ledger.orderTimes
        ((envelopes.flatMap TxEnvelope.orderIds).dedup.insertionSort (· ≤ ·))) standing).1
      split
      · rename_i reply
        rw [reply] at next
        obtain rfl := next
        exact ⟨⟨rfl, rfl, Nat.le_succ _, rfl⟩, .inl done⟩
      · rename_i reply
        rw [reply] at next
        obtain rfl := next
        exact ⟨⟨rfl, rfl, Nat.le_succ _, rfl⟩, .inl done⟩

theorem Rests.tails {sinceMs : Int} {before middle after : PostgresListener}
    (tails : Tails world settings windowS sinceMs before middle) (rests : Rests middle after) :
    Tails world settings windowS sinceMs before after := by
  have grown : middle.pulled <+: after.pulled := by rw [rests.pulled]
  constructor
  case asked => exact tails.asked.trans rests.asked
  case pulled => exact tails.pulled.trans grown
  case mirrors =>
    intro mirrors
    rw [Mirrors, batches, rests.window, rests.pulled]
    exact tails.mirrors mirrors
  case forward =>
    intro name cursor stored
    obtain ⟨moved, stored, ahead, read⟩ := tails.forward name cursor stored
    exact ⟨moved, rests.cursors ▸ stored, ahead,
      fun row ever above below => (read row ever above below).mono grown⟩
  case behind =>
    intro numbered name moved stored
    rw [rests.cursors] at stored
    rcases tails.behind numbered name moved stored with ⟨cursor, stored, carried⟩ | new
    · exact .inl ⟨cursor, stored, fun age behind => (carried age behind).mono grown⟩
    · exact .inr (new.mono grown)

/-- What a call does to what is stored, from the listener it was made on, or from one that has
lost its cursors with its connection. -/
theorem facts_tails (world : World) (settings : Settings) (windowS : Int)
    (envelopes : List TxEnvelope) (listener : PostgresListener) :
    ∃ base, (base = listener ∨ listener.connected = false ∧ base = opened listener) ∧
      Tails world settings windowS (listener.sinceMs world) base
        (facts world settings envelopes listener).2 := by
  have still : ∀ base : PostgresListener,
      Tails world settings windowS (listener.sinceMs world) base base :=
    fun base => (Follows.refl base).tails _
  rcases facts_cases world settings envelopes listener with ⟨-, idle⟩ | ⟨rests, -⟩
  · rcases idle.cursors with same | ⟨lost, same⟩
    · exact ⟨listener, .inl rfl, Rests.tails (still _) ⟨idle.pulled, idle.window, idle.asked, same⟩⟩
    · refine ⟨opened listener, .inr ⟨lost, rfl⟩, Rests.tails (still _) ⟨?_, ?_, ?_, same⟩⟩
      · rw [idle.pulled, opened_pulled]
      · rw [idle.window, opened_window]
      · rw [opened_asked]
        exact idle.asked
  · refine ⟨opened listener, ?_, Rests.tails (tailed_tails world settings windowS listener) rests⟩
    cases connected : listener.connected with
    | true => exact .inl (if_pos connected)
    | false => exact .inr ⟨rfl, rfl⟩

theorem facts_mirrors {envelopes : List TxEnvelope} {listener : PostgresListener}
    (mirrors : Mirrors settings windowS listener) :
    Mirrors settings windowS (facts world settings envelopes listener).2 := by
  obtain ⟨base, from_listener, tails⟩ := facts_tails world settings windowS envelopes listener
  rcases from_listener with rfl | ⟨-, rfl⟩
  · exact tails.mirrors mirrors
  · exact tails.mirrors (opened_mirrors mirrors)

theorem mirrors_windowS {listener : PostgresListener} (mirrors : Mirrors settings windowS listener) :
    listener.window.windowS = windowS := by
  rw [mirrors, windowS_ingestAll]

/-- Behind every stored cursor there are rows that were read, and rows that were older than the
window at some time before. -/
def Known (world : World) (windowS : Int) (listener : PostgresListener) : Prop :=
  ∀ name cursor, listener.cursors.get name = some cursor →
    ∃ asked ≤ listener.asked, Behind world listener name cursor (world.clock asked - windowS * 1000)

theorem Known.opened {listener : PostgresListener} (known : Known world windowS listener) :
    Known world windowS (opened listener) := by
  intro name cursor stored
  obtain ⟨asked, order, behind⟩ := known name cursor (opened_stored stored).2
  refine ⟨asked, by rwa [opened_asked], ?_⟩
  exact behind.mono (by rw [opened_pulled])

theorem facts_known (numbered : Numbered world) {envelopes : List TxEnvelope}
    {listener : PostgresListener} (mirrors : Mirrors settings windowS listener)
    (known : Known world windowS listener) :
    Known world windowS (facts world settings envelopes listener).2 := by
  obtain ⟨base, from_listener, tails⟩ := facts_tails world settings windowS envelopes listener
  have base_known : Known world windowS base ∧ base.asked = listener.asked := by
    rcases from_listener with rfl | ⟨-, rfl⟩
    · exact ⟨known, rfl⟩
    · exact ⟨known.opened, opened_asked listener⟩
  intro name moved stored
  rcases tails.behind numbered name moved stored with ⟨cursor, stored, carried⟩ | new
  · obtain ⟨asked, order, behind⟩ := base_known.1 name cursor stored
    exact ⟨asked, order.trans tails.asked, carried _ behind⟩
  · refine ⟨listener.asked, base_known.2 ▸ tails.asked, ?_⟩
    rwa [PostgresListener.sinceMs, mirrors_windowS mirrors] at new

theorem factsAll_standing (world : World) (settings : Settings) (windowS : Int)
    (calls : List (List TxEnvelope)) :
    Mirrors settings windowS (factsAll world settings windowS calls) ∧
      (Numbered world → Known world windowS (factsAll world settings windowS calls)) := by
  induction calls using List.reverseRecOn with
  | nil => exact ⟨rfl, fun _ _ _ stored => nomatch stored⟩
  | append_singleton calls envelopes ih =>
    have next : factsAll world settings windowS (calls ++ [envelopes]) =
        (facts world settings envelopes (factsAll world settings windowS calls)).2 := by
      rw [factsAll, List.foldl_append]
      rfl
    rw [next]
    exact ⟨facts_mirrors ih.1, fun numbered => facts_known numbered ih.1 (ih.2 numbered)⟩

theorem facts_reads (numbered : Numbered world) {envelopes : List TxEnvelope}
    {listener : PostgresListener}
    (stored : ∀ name cursor, (opened listener).cursors.get name = some cursor →
      Behind world (opened listener) name cursor (listener.sinceMs world))
    (fits : (backlog world (opened listener) (listener.sinceMs world)
      (facts world settings envelopes listener).2.asked
      ((world.ledger listener.asked).live (listener.sinceMs world)) : Int) ≤ settings.tailBudget)
    (answers : (facts world settings envelopes listener).1 ≠ .empty) {name : String} {row : LedgerRow}
    (row_in : row ∈ (world.ledger listener.asked).rows name)
    (recent : listener.sinceMs world ≤ row.eventAtMs) :
    Pulled (facts world settings envelopes listener).2 name row := by
  rcases facts_cases world settings envelopes listener with ⟨nothing, -⟩ | ⟨rests, done | nothing⟩
  · exact absurd nothing answers
  · have live := live_of_row _ row_in recent
    obtain ⟨entry, member, rfl⟩ := List.mem_map.mp live
    have row_later : row ∈ (world.ledger (entered listener).asked).rows entry.1 :=
      (world.grows listener.asked entry.1).mem row_in
    have pulled := refreshEach_reads numbered _ _ (live_names _ _) settings.tailBudget
      (entered listener) (opened_connected listener) (listed_live listener _) stored done rests.asked
      fits entry member row row_later recent
    rw [Pulled, rests.pulled]
    exact pulled
  · exact absurd nothing answers

end Calls

/-- A row that `facts` would show for a transaction, up to its block. -/
def Matches (settings : Settings) (env : TxEnvelope) (row : LedgerRow) : Prop :=
  ∃ item, row.entry = some item ∧
    settings.lower item.transactionHash = settings.lower env.txHash ∧
    item.blockNumber.getD 0 ≤ env.blockNumber

def Ingested (listener : PostgresListener) (name : String) (row : LedgerRow) : Prop :=
  Pulled listener name row ∧ ∀ item, row.entry = some item → item ∈ (batches listener).flatten

theorem ingested_of_pulled {listener : PostgresListener} {name : String} {row : LedgerRow}
    (pulled : Pulled listener name row) : Ingested listener name row := by
  refine ⟨pulled, fun item taken => ?_⟩
  obtain ⟨rows, rows_in, row_in⟩ := List.mem_flatten.mp pulled
  exact List.mem_flatten.mpr ⟨_, List.mem_map_of_mem rows_in,
    List.mem_filterMap.mpr ⟨(name, row), row_in, taken⟩⟩

/-- After any run, at any call: the window is what was ingested; a call whose budget holds for the
backlog covers only what it has ingested, while rows are numbered from 1 and the clock has not
gone back; a stored cursor moves over rows that are ingested only; and what is behind a stored
cursor was ingested, or was older than the window when the cursor was sought. -/
theorem facts_covered (world : World) (settings : Settings) (windowS : Int)
    (calls : List (List TxEnvelope)) (envelopes : List TxEnvelope) :
    let before := factsAll world settings windowS calls
    let answer := facts world settings envelopes before
    let sinceMs := world.clock before.asked - windowS * 1000
    answer.2.window = ingestAll settings.lower windowS (batches answer.2) ∧
    (Numbered world → (∀ asked ≤ before.asked, world.clock asked ≤ world.clock before.asked) →
      (backlog world (opened before) sinceMs answer.2.asked
        ((world.ledger before.asked).live sinceMs) : Int) ≤ settings.tailBudget →
      ∀ env ∈ envelopes, ∀ given, answer.1.get env.txHash = some given → given.covered = true →
        ∀ name, ∀ row ∈ (world.ledger before.asked).rows name, Matches settings env row →
          sinceMs ≤ row.eventAtMs → Ingested answer.2 name row) ∧
    (before.connected = true → ∀ name cursor, before.cursors.get name = some cursor →
      ∃ moved, answer.2.cursors.get name = some moved ∧ cursor ≤ moved ∧
        ∀ row, Ever world name row → cursor < row.sequence → row.sequence ≤ moved →
          Ingested answer.2 name row) ∧
    (Numbered world → ∀ name cursor, answer.2.cursors.get name = some cursor →
      ∃ asked ≤ answer.2.asked, ∀ row, Ever world name row → row.sequence ≤ cursor →
        Ingested answer.2 name row ∨ row.eventAtMs < world.clock asked - windowS * 1000) := by
  intro before answer sinceMs
  obtain ⟨mirrors, known⟩ := factsAll_standing world settings windowS calls
  have since : before.sinceMs world = sinceMs := by
    rw [PostgresListener.sinceMs, mirrors_windowS mirrors]
  refine ⟨facts_mirrors mirrors, ?_, ?_, ?_⟩
  · intro numbered timely fits env env_in given answered _ name row row_in _ recent
    have stored : ∀ name cursor, (opened before).cursors.get name = some cursor →
        Behind world (opened before) name cursor (before.sinceMs world) := by
      intro name cursor held
      obtain ⟨asked, order, behind⟩ := (known numbered).opened name cursor held
      refine behind.later ?_
      rw [since]
      exact Int.sub_le_sub_right (timely asked (by rwa [opened_asked] at order)) _
    have answers : answer.1 ≠ .empty := by
      intro nothing
      rw [nothing] at answered
      cases answered
    exact ingested_of_pulled
      (facts_reads numbered stored (by rwa [since]) answers row_in (by rwa [since]))
  · intro connected name cursor held
    obtain ⟨base, from_before, tails⟩ := facts_tails world settings windowS envelopes before
    rcases from_before with rfl | ⟨lost, -⟩
    · obtain ⟨moved, stored, forward, read⟩ := tails.forward name cursor held
      exact ⟨moved, stored, forward,
        fun row ever above below => ingested_of_pulled (read row ever above below)⟩
    · rw [connected] at lost
      cases lost
  · intro numbered name cursor held
    obtain ⟨asked, order, behind⟩ := facts_known numbered mirrors (known numbered) name cursor held
    exact ⟨asked, order, fun row ever below => (behind row ever below).imp_left ingested_of_pulled⟩

/-! Two instances with a row each, seen by listeners of different budgets. -/

def ahead : LedgerRow :=
  ⟨1, 5000, none, "fomo_observation", some "robinhood", some "0xa", "0", "payment", "observed", some 100⟩

def behindHand : LedgerRow :=
  ⟨1, 5000, none, "fomo_observation", some "robinhood", some "0xb", "0", "payment", "observed", some 50⟩

def twoInstances : Ledger where
  instances := ⟨[("first", [ahead]), ("second", [behindHand])], by decide⟩
  ordered := by
    intro entry member
    rcases List.mem_pair.mp member with rfl | rfl <;> exact List.pairwise_singleton _ _

def quiet : World := ⟨fun _ => twoInstances, fun _ => 6000, fun _ => false, fun _ => false,
  fun _ _ => List.prefix_refl _⟩

def second : TxEnvelope := ⟨"0xb", 50, []⟩

theorem facts_covered_sample :
    Ingested (facts quiet ⟨id, 5, 30000⟩ [second] (factsAll quiet ⟨id, 5, 30000⟩ 60 [])).2
      "second" behindHand := by
  have numbered : Numbered quiet := by
    rintro name row ⟨asked, row_in⟩
    have rows : ∀ entry ∈ twoInstances.instances.entries, ∀ row ∈ entry.2, 1 ≤ row.sequence := by
      decide
    change row ∈ twoInstances.rows name at row_in
    unfold Ledger.rows at row_in
    cases found : twoInstances.instances.get name with
    | none => simp [found] at row_in
    | some list =>
      rw [found] at row_in
      exact rows (name, list) ((get_some _ _ _).mp found) row row_in
  obtain ⟨-, covered, -, -⟩ := facts_covered quiet ⟨id, 5, 30000⟩ 60 [] [second]
  exact covered numbered (fun _ _ => le_rfl) (by decide +kernel) second (List.mem_singleton_self _)
    ⟨[⟨"0", "payment", "observed", none, 5000⟩], none, true⟩ (by decide +kernel) rfl "second"
    behindHand (by decide +kernel) ⟨_, rfl, rfl, by decide⟩ (by decide +kernel)

/-- With a budget of one row the listener reads the first instance only, and yet covers the
transaction of the second one, whose row is in the ledger and in the window. -/
theorem facts_cover_unread :
    (facts quiet ⟨id, 1, 30000⟩ [second] (.fresh 60)).1.get "0xb" = some ⟨[], none, true⟩ ∧
      behindHand ∈ (quiet.ledger 0).rows "second" ∧ Matches ⟨id, 1, 30000⟩ second behindHand ∧
      quiet.clock 0 - 60 * 1000 ≤ behindHand.eventAtMs ∧
      ("second", behindHand) ∉
        (facts quiet ⟨id, 1, 30000⟩ [second] (.fresh 60)).2.pulled.flatten := by
  refine ⟨by decide +kernel, by decide +kernel, ⟨_, rfl, rfl, by decide⟩, by decide, by decide +kernel⟩

end RhPools.ListenerRuns
