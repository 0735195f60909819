import Mathlib.Data.List.Sort
import Mathlib.Data.String.Basic
import Mathlib.Order.Bounds.Defs
import RhPools.SqlTables

/-! The in-memory window of listener observations: a row for each transaction and event
index, a list of what may expire in order of time, and the newest time seen. The window is
compared with the last write of every row ever ingested. -/

namespace RhPools.ObservationWindows

open OrderedTables

structure ListenerObservation where
  eventIndex : String
  kind : String
  status : String
  orderId : Option String
  eventAtMs : Int
deriving DecidableEq

/-- A row as `ingest` reads it. -/
structure ListenerRow where
  transactionHash : String
  eventIndex : String
  kind : String
  status : String
  orderId : Option String
  eventAtMs : Int
  blockNumber : Option Int
deriving DecidableEq

abbrev ByHash := OrderedTable String (OrderedTable String ListenerObservation)

structure ObservationWindow where
  windowS : Int
  byHash : ByHash
  order : List (Int × String)
  latestMs : Int
  latestBlock : Int

def ObservationWindow.fresh (windowS : Int) : ObservationWindow := ⟨windowS, .empty, [], 0, 0⟩

def earlier (left right : Int × String) : Prop :=
  left.1 < right.1 ∨ left.1 = right.1 ∧ left.2 < right.2

instance (left right : Int × String) : Decidable (earlier left right) := by
  unfold earlier
  infer_instance

/-- `bisect.insort`: behind every entry that is not later. -/
def insort (order : List (Int × String)) (entry : Int × String) : List (Int × String) :=
  order.takeWhile (fun other => ¬ earlier entry other) ++
    entry :: order.dropWhile fun other => ¬ earlier entry other

section Window

-- `str.lower`
variable (lower : String → String)

def ListenerRow.observation (row : ListenerRow) : ListenerObservation :=
  { eventIndex := row.eventIndex
    kind := row.kind
    status := row.status
    -- an empty order id reads as none
    orderId := (row.orderId.filter fun order => order ≠ "").map lower
    eventAtMs := row.eventAtMs }

/-- What `ingest` does with one row. -/
def ObservationWindow.note (window : ObservationWindow) (row : ListenerRow) : ObservationWindow :=
  let txHash := lower row.transactionHash
  let item := row.observation lower
  let events := (window.byHash.get txHash).getD .empty
  { window with
    byHash := window.byHash.assign txHash (events.assign item.eventIndex item)
    order := insort window.order (item.eventAtMs, txHash)
    latestMs := max window.latestMs item.eventAtMs
    latestBlock := max window.latestBlock (row.blockNumber.getD 0) }

def ObservationWindow.cutoff (window : ObservationWindow) : Int :=
  window.latestMs - window.windowS * 1000

/-- An expired entry drops the old rows of its transaction, which may by now be others than
the one the entry was made for, or none. -/
def evictTx (cutoff : Int) (byHash : ByHash) (txHash : String) : ByHash :=
  match byHash.get txHash with
  | none => byHash
  | some events =>
    let kept := events.remove fun _ item => item.eventAtMs < cutoff
    if kept.entries = [] then byHash.erase txHash else byHash.assign txHash kept

def ObservationWindow.evict (window : ObservationWindow) : ObservationWindow :=
  let old := fun entry => decide (earlier entry (window.cutoff, ""))
  { window with
    byHash := (window.order.takeWhile old).foldl
      (fun byHash entry => evictTx window.cutoff byHash entry.2) window.byHash
    order := window.order.dropWhile old }

def ObservationWindow.ingest (window : ObservationWindow) (rows : List ListenerRow) :
    ObservationWindow :=
  (rows.foldl (ObservationWindow.note lower) window).evict

def ObservationWindow.observations (window : ObservationWindow) (txHash : String) :
    List ListenerObservation :=
  let events := (window.byHash.get (lower txHash)).getD .empty
  (events.entries.map Prod.snd).insertionSort fun left right => left.eventIndex ≤ right.eventIndex

/-- The last write of a row of a transaction, over everything ingested. -/
def lastWrite (rows : List ListenerRow) (txHash index : String) : Option ListenerObservation :=
  (rows.reverse.find? fun row => lower row.transactionHash = txHash ∧ row.eventIndex = index).map
    (ListenerRow.observation lower)

end Window

/-- The greatest time ever ingested; `_latest_ms` starts at 0. -/
def newest (rows : List ListenerRow) : Int :=
  (rows.map ListenerRow.eventAtMs).foldl max 0

def Rising (order : List (Int × String)) : Prop :=
  order.Pairwise fun left right => left.1 ≤ right.1

theorem mem_insort (order : List (Int × String)) (entry other : Int × String) :
    other ∈ insort order entry ↔ other ∈ order ∨ other = entry := by
  have parts : other ∈ order ↔
      other ∈ order.takeWhile (fun other => ¬ earlier entry other) ∨
        other ∈ order.dropWhile fun other => ¬ earlier entry other := by
    rw [← List.mem_append, List.takeWhile_append_dropWhile]
  rw [insort, List.mem_append, List.mem_cons, parts]
  tauto

variable {order : List (Int × String)}

theorem Rising.insort (rising : Rising order) (entry : Int × String) :
    Rising (insort order entry) := by
  induction order with
  | nil => exact List.pairwise_singleton _ _
  | cons head rest ih =>
    obtain ⟨first, rising⟩ := List.pairwise_cons.mp rising
    by_cases later : earlier entry head
    · -- the entry goes in front of everything
      have here : ObservationWindows.insort (head :: rest) entry = entry :: head :: rest := by
        simp [ObservationWindows.insort, later]
      have before : entry.1 ≤ head.1 := by
        rcases later with less | ⟨same, -⟩
        · exact less.le
        · exact same.le
      rw [here]
      refine List.pairwise_cons.mpr ⟨fun other member => ?_, List.pairwise_cons.mpr ⟨first, rising⟩⟩
      rcases List.mem_cons.mp member with rfl | inside
      · exact before
      · exact before.trans (first other inside)
    · have here : ObservationWindows.insort (head :: rest) entry =
          head :: ObservationWindows.insort rest entry := by
        simp [ObservationWindows.insort, later]
      have after : head.1 ≤ entry.1 := not_lt.mp fun less => later (.inl less)
      rw [here]
      refine List.pairwise_cons.mpr ⟨fun other member => ?_, ih rising⟩
      rcases (mem_insort rest entry other).mp member with inside | rfl
      · exact first other inside
      · exact after

/-- No text is below the empty one, so `(cutoff, "")` cuts between the times. -/
theorem earlier_cut (entry : Int × String) (cutoff : Int) :
    earlier entry (cutoff, "") ↔ entry.1 < cutoff := by
  have least : ¬ entry.2 < "" := by
    rw [String.lt_iff_toList_lt]
    exact List.not_lt_nil _
  simp [earlier, least]

theorem Rising.expired (rising : Rising order) (cutoff : Int) {entry : Int × String}
    (member : entry ∈ order) (old : entry.1 < cutoff) :
    entry ∈ order.takeWhile fun entry => decide (earlier entry (cutoff, "")) := by
  induction order with
  | nil => cases member
  | cons head rest ih =>
    obtain ⟨first, rising⟩ := List.pairwise_cons.mp rising
    have head_old : head.1 < cutoff := by
      rcases List.mem_cons.mp member with rfl | inside
      · exact old
      · exact (first entry inside).trans_lt old
    have falls : earlier head (cutoff, "") := (earlier_cut head cutoff).mpr head_old
    rw [List.takeWhile_cons_of_pos (by simpa using falls)]
    rcases List.mem_cons.mp member with rfl | inside
    · exact List.mem_cons_self
    · exact List.mem_cons_of_mem _ (ih rising inside)

theorem Rising.kept (rising : Rising order) (cutoff : Int) {entry : Int × String}
    (member : entry ∈ order.dropWhile fun entry => decide (earlier entry (cutoff, ""))) :
    cutoff ≤ entry.1 := by
  induction order with
  | nil => cases member
  | cons head rest ih =>
    obtain ⟨first, rising⟩ := List.pairwise_cons.mp rising
    by_cases falls : earlier head (cutoff, "")
    · rw [List.dropWhile_cons_of_pos (by simpa using falls)] at member
      exact ih rising member
    · have stays : cutoff ≤ head.1 := not_lt.mp fun less => falls ((earlier_cut head cutoff).mpr less)
      rw [List.dropWhile_cons_of_neg (by simpa using falls)] at member
      rcases List.mem_cons.mp member with rfl | inside
      · exact stays
      · exact stays.trans (first entry inside)

/-! The two-level table, read at a transaction and an event index. -/

def lookup (byHash : ByHash) (txHash index : String) : Option ListenerObservation :=
  (byHash.get txHash).bind fun events => events.get index

theorem lookup_write (byHash : ByHash) (txHash other index at_index : String)
    (item : ListenerObservation) :
    lookup (byHash.assign txHash (((byHash.get txHash).getD .empty).assign index item)) other
        at_index =
      if other = txHash ∧ at_index = index then some item else lookup byHash other at_index := by
  unfold lookup
  rw [get_assign]
  by_cases same : other = txHash
  · subst same
    rw [if_pos rfl, Option.bind_some, get_assign]
    cases held : byHash.get other <;> simp [get_empty]
  · rw [if_neg same, if_neg fun both => same both.1]

theorem get_kept (events : OrderedTable String ListenerObservation) (cutoff : Int)
    (index : String) :
    (events.remove fun _ item => item.eventAtMs < cutoff).get index =
      (events.get index).filter fun item => cutoff ≤ item.eventAtMs := by
  rw [get_remove]
  congr 1
  funext item
  rw [← decide_not, decide_eq_decide, not_lt]

theorem lookup_evictTx (cutoff : Int) (byHash : ByHash) (txHash other index : String) :
    lookup (evictTx cutoff byHash txHash) other index =
      if other = txHash then (lookup byHash other index).filter fun item => cutoff ≤ item.eventAtMs
      else lookup byHash other index := by
  cases held : byHash.get txHash with
  | none =>
    have nothing : evictTx cutoff byHash txHash = byHash := by rw [evictTx, held]
    rw [nothing]
    by_cases same : other = txHash
    · simp [lookup, same, held]
    · rw [if_neg same]
  | some events =>
    have now : lookup byHash txHash index = events.get index := by rw [lookup, held, Option.bind_some]
    simp only [evictTx, held]
    by_cases same : other = txHash
    · rw [if_pos same, same, now, ← get_kept events cutoff index]
      split
      · -- the transaction has no row left
        rename_i empty
        have nothing : (events.remove fun _ item => item.eventAtMs < cutoff).get index = none := by
          rw [get_none, empty]
          exact fun _ member => absurd member List.not_mem_nil
        rw [nothing, lookup, get_erase, if_pos rfl, Option.bind_none]
      · rw [lookup, get_assign, if_pos rfl, Option.bind_some]
    · rw [if_neg same]
      split
      · rw [lookup, get_erase, if_neg same, lookup]
      · rw [lookup, get_assign, if_neg same, lookup]

theorem lookup_evictAll (cutoff : Int) (expired : List (Int × String)) (byHash : ByHash)
    (txHash index : String) :
    lookup (expired.foldl (fun byHash entry => evictTx cutoff byHash entry.2) byHash) txHash index =
      if txHash ∈ expired.map Prod.snd then
        (lookup byHash txHash index).filter fun item => cutoff ≤ item.eventAtMs
      else lookup byHash txHash index := by
  induction expired generalizing byHash with
  | nil => rfl
  | cons entry rest ih =>
    rw [List.foldl_cons, ih, lookup_evictTx]
    have listed : txHash ∈ (entry :: rest).map Prod.snd ↔
        txHash = entry.2 ∨ txHash ∈ rest.map Prod.snd := by
      rw [List.map_cons, List.mem_cons]
    by_cases here : txHash = entry.2
    · rw [if_pos here, if_pos (listed.mpr (.inl here)), Option.filter_filter]
      simp
    · by_cases again : txHash ∈ rest.map Prod.snd
      · rw [if_pos again, if_neg here, if_pos (listed.mpr (.inr again))]
      · rw [if_neg again, if_neg here, if_neg fun member => (listed.mp member).elim here again]

section Writes

variable (lower : String → String)

theorem lastWrite_snoc (rows : List ListenerRow) (row : ListenerRow) (txHash index : String) :
    lastWrite lower (rows ++ [row]) txHash index =
      if txHash = lower row.transactionHash ∧ index = row.eventIndex then
        some (row.observation lower)
      else lastWrite lower rows txHash index := by
  rw [lastWrite, List.reverse_append, List.reverse_singleton, List.singleton_append]
  by_cases here : txHash = lower row.transactionHash ∧ index = row.eventIndex
  · rw [if_pos here, List.find?_cons_of_pos (by simp [here]), Option.map_some]
  · have apart : ¬ (lower row.transactionHash = txHash ∧ row.eventIndex = index) :=
      fun both => here ⟨both.1.symm, both.2.symm⟩
    rw [if_neg here, List.find?_cons_of_neg (by simpa using apart), lastWrite]

theorem lastWrite_mem {rows : List ListenerRow} {txHash index : String}
    {item : ListenerObservation} (last : lastWrite lower rows txHash index = some item) :
    ∃ row ∈ rows, lower row.transactionHash = txHash ∧ row.eventIndex = index ∧
      row.observation lower = item := by
  obtain ⟨row, found, same⟩ := Option.map_eq_some_iff.mp last
  have named := List.find?_some found
  rw [decide_eq_true_eq] at named
  exact ⟨row, List.mem_reverse.mp (List.mem_of_find?_eq_some found), named.1, named.2, same⟩

theorem lastWrite_index {rows : List ListenerRow} {txHash index : String}
    {item : ListenerObservation} (last : lastWrite lower rows txHash index = some item) :
    item.eventIndex = index := by
  obtain ⟨row, -, -, named, rfl⟩ := lastWrite_mem lower last
  exact named

end Writes

theorem newest_snoc (rows : List ListenerRow) (row : ListenerRow) :
    newest (rows ++ [row]) = max (newest rows) row.eventAtMs := by
  rw [newest, List.map_append, List.foldl_append]
  rfl

/-! The invariant: what the window holds is the last write of its place; a last write that it
does not hold is older than the cutoff; every row it holds has an entry of its own in the
expiry list. -/

structure Windowed (lower : String → String) (rows : List ListenerRow)
    (window : ObservationWindow) : Prop where
  held : ∀ txHash index item, lookup window.byHash txHash index = some item →
    lastWrite lower rows txHash index = some item
  gone : ∀ txHash index item, lastWrite lower rows txHash index = some item →
    lookup window.byHash txHash index = some item ∨ item.eventAtMs < window.cutoff
  listed : ∀ txHash index item, lookup window.byHash txHash index = some item →
    (item.eventAtMs, txHash) ∈ window.order
  rising : Rising window.order
  newest : window.latestMs = newest rows

variable (lower : String → String) (windowS : Int)

theorem Windowed.fresh :
    Windowed lower [] (.fresh windowS) where
  held := fun _ _ _ found => nomatch found
  gone := fun _ _ _ found => nomatch found
  listed := fun _ _ _ found => nomatch found
  rising := List.Pairwise.nil
  newest := rfl

theorem Windowed.note {lower : String → String} {rows : List ListenerRow}
    {window : ObservationWindow} (windowed : Windowed lower rows window) (row : ListenerRow) :
    Windowed lower (rows ++ [row]) (window.note lower row) := by
  have read : ∀ txHash index, lookup (window.note lower row).byHash txHash index =
      if txHash = lower row.transactionHash ∧ index = row.eventIndex then
        some (row.observation lower)
      else lookup window.byHash txHash index :=
    fun txHash index => lookup_write window.byHash _ txHash _ index _
  have later : window.cutoff ≤ (window.note lower row).cutoff :=
    Int.sub_le_sub_right (le_max_left _ _) _
  constructor
  case held =>
    intro txHash index item found
    rw [read] at found
    rw [lastWrite_snoc]
    by_cases here : txHash = lower row.transactionHash ∧ index = row.eventIndex
    · rwa [if_pos here] at found ⊢
    · rw [if_neg here] at found ⊢
      exact windowed.held txHash index item found
  case gone =>
    intro txHash index item last
    rw [lastWrite_snoc] at last
    rw [read]
    by_cases here : txHash = lower row.transactionHash ∧ index = row.eventIndex
    · rw [if_pos here] at last ⊢
      exact .inl last
    · rw [if_neg here] at last ⊢
      exact (windowed.gone txHash index item last).imp_right fun old => old.trans_le later
  case listed =>
    intro txHash index item found
    rw [read] at found
    refine (mem_insort _ _ _).mpr ?_
    split at found
    · rename_i here
      rw [← Option.some.inj found, here.1]
      exact .inr rfl
    · exact .inl (windowed.listed txHash index item found)
  case rising => exact windowed.rising.insort _
  case newest =>
    rw [newest_snoc, ← windowed.newest]
    rfl

theorem Windowed.notes {lower : String → String} {rows : List ListenerRow}
    {window : ObservationWindow} (windowed : Windowed lower rows window) (batch : List ListenerRow) :
    Windowed lower (rows ++ batch) (batch.foldl (ObservationWindow.note lower) window) := by
  induction batch generalizing rows window with
  | nil => simpa using windowed
  | cons row rest ih =>
    have whole := ih (windowed.note row)
    rwa [List.append_assoc, List.singleton_append] at whole

structure Current (window : ObservationWindow) : Prop where
  rows : ∀ txHash index item, lookup window.byHash txHash index = some item →
    window.cutoff ≤ item.eventAtMs
  entries : ∀ entry ∈ window.order, window.cutoff ≤ entry.1

theorem Windowed.evict {lower : String → String} {rows : List ListenerRow}
    {window : ObservationWindow} (windowed : Windowed lower rows window) :
    Windowed lower rows window.evict ∧ Current window.evict := by
  have read : ∀ txHash index, lookup window.evict.byHash txHash index =
      if txHash ∈ (window.order.takeWhile fun entry =>
          decide (earlier entry (window.cutoff, ""))).map Prod.snd then
        (lookup window.byHash txHash index).filter fun item => window.cutoff ≤ item.eventAtMs
      else lookup window.byHash txHash index :=
    lookup_evictAll window.cutoff _ window.byHash
  have was : ∀ txHash index item, lookup window.evict.byHash txHash index = some item →
      lookup window.byHash txHash index = some item := by
    intro txHash index item found
    rw [read] at found
    split at found
    · exact (Option.filter_eq_some_iff.mp found).1
    · exact found
  -- an old row has its own entry, which is among those that expire
  have young : ∀ txHash index item, lookup window.evict.byHash txHash index = some item →
      window.cutoff ≤ item.eventAtMs := by
    intro txHash index item found
    by_contra old
    have expires := windowed.rising.expired window.cutoff
      (windowed.listed txHash index item (was txHash index item found)) (not_le.mp old)
    rw [read, if_pos (List.mem_map_of_mem (f := Prod.snd) expires)] at found
    exact old (of_decide_eq_true (Option.filter_eq_some_iff.mp found).2)
  have stays : ∀ txHash index item, lookup window.byHash txHash index = some item →
      window.cutoff ≤ item.eventAtMs → lookup window.evict.byHash txHash index = some item := by
    intro txHash index item found recent
    rw [read, found]
    split
    · exact Option.filter_eq_some_iff.mpr ⟨rfl, decide_eq_true recent⟩
    · rfl
  refine ⟨?_, young, fun entry member => windowed.rising.kept window.cutoff member⟩
  constructor
  case held => exact fun txHash index item found => windowed.held _ _ _ (was txHash index item found)
  case gone =>
    intro txHash index item last
    rcases windowed.gone txHash index item last with found | old
    · rcases lt_or_ge item.eventAtMs window.cutoff with old | recent
      · exact .inr old
      · exact .inl (stays txHash index item found recent)
    · exact .inr old
  case listed =>
    intro txHash index item found
    have member := windowed.listed txHash index item (was txHash index item found)
    have recent := young txHash index item found
    rw [← List.takeWhile_append_dropWhile (p := fun entry : Int × String =>
      decide (earlier entry (window.cutoff, ""))) (l := window.order), List.mem_append] at member
    rcases member with expires | kept
    · have old : earlier (item.eventAtMs, txHash) (window.cutoff, "") := by
        simpa using List.mem_takeWhile_imp expires
      rw [earlier_cut] at old
      exact absurd recent (not_le.mpr old)
    · exact kept
  case rising => exact windowed.rising.sublist (List.dropWhile_sublist _)
  case newest => exact windowed.newest

theorem Windowed.ingest {lower : String → String} {rows : List ListenerRow}
    {window : ObservationWindow} (windowed : Windowed lower rows window) (batch : List ListenerRow) :
    Windowed lower (rows ++ batch) (window.ingest lower batch) ∧
      Current (window.ingest lower batch) :=
  (windowed.notes batch).evict

def ingestAll (lower : String → String) (windowS : Int) (batches : List (List ListenerRow)) :
    ObservationWindow :=
  batches.foldl (ObservationWindow.ingest lower) (.fresh windowS)

variable (batches : List (List ListenerRow))

theorem ingestAll_snoc (batch : List ListenerRow) :
    ingestAll lower windowS (batches ++ [batch]) =
      (ingestAll lower windowS batches).ingest lower batch := by
  rw [ingestAll, List.foldl_append]
  rfl

theorem windowed_ingestAll :
    Windowed lower batches.flatten (ingestAll lower windowS batches) ∧
      Current (ingestAll lower windowS batches) := by
  induction batches using List.reverseRecOn with
  | nil => exact ⟨.fresh lower windowS, fun _ _ _ found => (nomatch found), fun _ member => (nomatch member)⟩
  | append_singleton batches batch ih =>
    rw [ingestAll_snoc, List.flatten_append, List.flatten_singleton]
    exact ih.1.ingest batch

theorem windowS_notes (window : ObservationWindow) (batch : List ListenerRow) :
    (batch.foldl (ObservationWindow.note lower) window).windowS = window.windowS := by
  induction batch generalizing window with
  | nil => rfl
  | cons row rest ih => exact ih (window.note lower row)

theorem windowS_ingestAll : (ingestAll lower windowS batches).windowS = windowS := by
  induction batches using List.reverseRecOn with
  | nil => rfl
  | append_singleton batches batch ih =>
    rw [ingestAll_snoc]
    exact (windowS_notes lower _ batch).trans ih

theorem mem_observations (window : ObservationWindow) (txHash : String) (item : ListenerObservation)
    :
    item ∈ window.observations lower txHash ↔
      ∃ index, lookup window.byHash (lower txHash) index = some item := by
  rw [ObservationWindow.observations, List.mem_insertionSort]
  unfold lookup
  cases window.byHash.get (lower txHash) with
  | none => simp [OrderedTable.empty]
  | some events =>
    simp only [Option.getD_some, Option.bind_some, get_some, List.mem_map, Prod.exists,
      exists_eq_right]

theorem Windowed.observations_rise {lower : String → String} {rows : List ListenerRow}
    {window : ObservationWindow} (windowed : Windowed lower rows window) (txHash : String) :
    ((window.observations lower txHash).map ListenerObservation.eventIndex).Pairwise (· < ·) := by
  have indexes : ∀ events, window.byHash.get (lower txHash) = some events →
      (events.entries.map Prod.snd).map ListenerObservation.eventIndex =
        events.entries.map Prod.fst := by
    intro events found
    rw [List.map_map]
    refine List.map_congr_left fun entry member => ?_
    have held : lookup window.byHash (lower txHash) entry.1 = some entry.2 := by
      rw [lookup, found, Option.bind_some, get_some]
      exact member
    exact lastWrite_index lower (windowed.held _ _ _ held)
  have distinct : ((window.observations lower txHash).map ListenerObservation.eventIndex).Nodup := by
    refine ((List.perm_insertionSort _ _).map _).nodup_iff.mpr ?_
    cases found : window.byHash.get (lower txHash) with
    | none => exact List.nodup_nil
    | some events =>
      rw [Option.getD_some, indexes events found]
      exact events.distinct
  have ordered : ((window.observations lower txHash).map ListenerObservation.eventIndex).Pairwise
      (· ≤ ·) := by
    have : Std.Total fun left right : ListenerObservation => left.eventIndex ≤ right.eventIndex :=
      ⟨fun left right => le_total _ _⟩
    have : IsTrans ListenerObservation fun left right => left.eventIndex ≤ right.eventIndex :=
      ⟨fun _ _ _ first second => first.trans second⟩
    exact List.pairwise_map.mpr (List.pairwise_insertionSort _ _)
  exact (ordered.and distinct).imp fun both => lt_of_le_of_ne both.1 both.2

/-- After any batches the observations of a transaction are the last writes of its rows that
are not older than the horizon, each index once, and nothing older is kept. -/
theorem window_holds (lower : String → String) (windowS : Int) (batches : List (List ListenerRow)) :
    let window := ingestAll lower windowS batches
    let horizon := newest batches.flatten - windowS * 1000
    (∀ txHash item, item ∈ window.observations lower txHash ↔
      ∃ index, lastWrite lower batches.flatten (lower txHash) index = some item ∧
        horizon ≤ item.eventAtMs) ∧
    (∀ txHash, ((window.observations lower txHash).map ListenerObservation.eventIndex).Pairwise
      (· < ·)) ∧
    (∀ events ∈ window.byHash.entries, ∀ event ∈ events.2.entries, horizon ≤ event.2.eventAtMs) ∧
    ∀ entry ∈ window.order, horizon ≤ entry.1 := by
  intro window horizon
  obtain ⟨windowed, current⟩ := windowed_ingestAll lower windowS batches
  have level : window.cutoff = horizon := by
    show window.latestMs - window.windowS * 1000 = _
    rw [windowed.newest, windowS_ingestAll]
  refine ⟨?_, windowed.observations_rise, ?_, fun entry member => level ▸ current.entries entry member⟩
  · intro txHash item
    rw [mem_observations]
    constructor
    · rintro ⟨index, found⟩
      exact ⟨index, windowed.held _ _ _ found, level ▸ current.rows _ _ _ found⟩
    · rintro ⟨index, last, recent⟩
      refine ⟨index, (windowed.gone _ _ _ last).resolve_right ?_⟩
      rw [level]
      exact not_lt.mpr recent
  · rintro ⟨txHash, events⟩ inside ⟨index, item⟩ member
    rw [← level]
    refine current.rows txHash index item ?_
    rw [lookup, (get_some _ _ _).mpr inside, Option.bind_some]
    exact (get_some _ _ _).mpr member

def ancient : ListenerRow := ⟨"0xab", "0", "payment", "ok", none, -2000000, none⟩

/-- It is the newest row there is, and yet the window of half an hour drops it. -/
theorem window_drops :
    lastWrite id [ancient] "0xab" "0" = some (ancient.observation id) ∧
      (∀ row ∈ [[ancient]].flatten, row.eventAtMs ≤ ancient.eventAtMs) ∧
      ancient.eventAtMs - 1800 * 1000 ≤ (ancient.observation id).eventAtMs ∧
      (ingestAll id 1800 [[ancient]]).observations id "0xab" = [] := by decide +kernel

end RhPools.ObservationWindows
