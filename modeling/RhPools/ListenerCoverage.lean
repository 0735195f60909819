import Mathlib.Algebra.GroupWithZero.Nat
import RhPools.ListenerTails

/-! What the listener has read by the time it answers. A stored cursor stands above nothing
but rows that were read and rows that were older than the window when it was sought, and it
moves over rows that are read only. A refresh whose budget holds for all that is unread
reads every row of the window; one whose budget does not leaves rows of one instance unread
while the rows of another decide what counts as covered. -/

namespace RhPools.ListenerCoverage

open OrderedTables ObservationWindows LogTails ListenerTails

variable (ledger : Ledger)

theorem ordered_rows (name : String) :
    Ordered LedgerRow.sequence LedgerRow.eventAtMs (ledger.rows name) := by
  unfold Ledger.rows
  cases found : ledger.instances.get name with
  | none => exact List.Pairwise.nil
  | some rows => exact ledger.ordered (name, rows) ((get_some _ _ _).mp found)

theorem mem_live (sinceMs : Int) (name : String) (lastSequence : Int) :
    (name, lastSequence) ∈ ledger.live sinceMs ↔
      ∃ last, (ledger.rows name).getLast? = some last ∧ sinceMs ≤ last.eventAtMs ∧
        last.sequence = lastSequence := by
  simp only [Ledger.live, List.mem_filterMap, Option.map_eq_some_iff, Option.filter_eq_some_iff,
    Prod.exists, Prod.mk.injEq, decide_eq_true_eq]
  constructor
  · rintro ⟨_, rows, member, last, ⟨ends, recent⟩, rfl, same⟩
    refine ⟨last, ?_, recent, same⟩
    rw [Ledger.rows, (get_some _ _ _).mpr member]
    exact ends
  · rintro ⟨last, ends, recent, same⟩
    cases found : ledger.instances.get name with
    | none => simp [Ledger.rows, found] at ends
    | some rows =>
      rw [Ledger.rows, found] at ends
      exact ⟨name, rows, (get_some _ _ _).mp found, last, ⟨ends, recent⟩, rfl, same⟩

theorem live_names (sinceMs : Int) :
    ((ledger.live sinceMs).map Prod.fst).Nodup := by
  refine ledger.instances.distinct.sublist ?_
  unfold Ledger.live
  induction ledger.instances.entries with
  | nil => exact List.Sublist.slnil
  | cons entry rest ih =>
    rw [List.filterMap_cons]
    split
    · exact ih.cons _
    · rename_i taken
      obtain ⟨last, -, rfl⟩ := Option.map_eq_some_iff.mp taken
      exact ih.cons_cons _

theorem live_of_row {sinceMs : Int} {name : String} {row : LedgerRow}
    (row_in : row ∈ ledger.rows name) (recent : sinceMs ≤ row.eventAtMs) :
    name ∈ (ledger.live sinceMs).map Prod.fst := by
  obtain ⟨last, ends⟩ := List.getLast?_isSome.mpr (List.ne_nil_of_mem row_in) |> Option.isSome_iff_exists.mp
  have last_in : last ∈ ledger.rows name := List.mem_of_getLast? ends
  have behind : row.sequence ≤ last.sequence := by
    obtain ⟨before, whole⟩ := List.getLast?_eq_some_iff.mp ends
    have ordered := ordered_rows ledger name
    rw [whole] at row_in ordered
    rcases List.mem_append.mp row_in with inside | here
    · exact ((List.pairwise_append.mp ordered).2.2 row inside last (List.mem_singleton_self last)).1.le
    · rw [List.mem_singleton.mp here]
  have later := (ordered_rows ledger name).time_le row_in last_in behind
  exact List.mem_map_of_mem (f := Prod.fst)
    ((mem_live ledger sinceMs name last.sequence).mpr ⟨last, ends, by omega, rfl⟩)

section Worlds

variable (world : World)

theorem rows_grow (name : String) {early late : Nat} (order : early ≤ late) :
    (world.ledger early).rows name <+: (world.ledger late).rows name := by
  induction late, order using Nat.le_induction with
  | base => exact List.prefix_refl _
  | succ late _ ih => exact ih.trans (world.grows late name)

def Ever (name : String) (row : LedgerRow) : Prop :=
  ∃ asked, row ∈ (world.ledger asked).rows name

variable {world} {name : String} {asked : Nat} {row : LedgerRow}

theorem Ever.meet (ever : Ever world name row) (asked : Nat) :
    ∃ late, (world.ledger asked).rows name <+: (world.ledger late).rows name ∧
      row ∈ (world.ledger late).rows name := by
  obtain ⟨other, row_in⟩ := ever
  exact ⟨max asked other, rows_grow world name (le_max_left _ _),
    (rows_grow world name (le_max_right _ _)).mem row_in⟩

theorem Ever.old_below (ever : Ever world name row) {bound sinceMs : Int}
    {first : LedgerRow}
    (found : firstFrom LedgerRow.sequence ((world.ledger asked).rows name) bound = some first)
    (old : first.eventAtMs < sinceMs) (below : row.sequence ≤ bound) : row.eventAtMs < sinceMs := by
  obtain ⟨late, grown, row_in⟩ := ever.meet asked
  exact (ordered_rows _ name).old_below grown found old row_in below

theorem Ever.new_above (ever : Ever world name row) {bound sinceMs : Int}
    {first : LedgerRow}
    (found : firstFrom LedgerRow.sequence ((world.ledger asked).rows name) bound = some first)
    (new : sinceMs ≤ first.eventAtMs) (reached : bound ≤ row.sequence) : sinceMs ≤ row.eventAtMs := by
  obtain ⟨late, grown, row_in⟩ := ever.meet asked
  exact (ordered_rows _ name).new_above grown found new row_in reached

theorem Ever.later (ever : Ever world name row) {other : LedgerRow}
    (there : other ∈ (world.ledger asked).rows name) (after : other.sequence ≤ row.sequence) :
    other.eventAtMs ≤ row.eventAtMs := by
  obtain ⟨late, grown, row_in⟩ := ever.meet asked
  exact (ordered_rows _ name).time_le (grown.mem there) row_in after

theorem Ever.in_batch (ever : Ever world name row) {cursor : Int} {limit : Nat}
    {last : LedgerRow}
    (ends : (batch LedgerRow.sequence ((world.ledger asked).rows name) cursor limit).getLast? = some last)
    (above : cursor < row.sequence) (passed : row.sequence ≤ last.sequence) :
    row ∈ batch LedgerRow.sequence ((world.ledger asked).rows name) cursor limit := by
  obtain ⟨late, grown, row_in⟩ := ever.meet asked
  have whole := (ordered_rows _ name).above_next (batch_front grown cursor limit) ends
  have member := mem_above.mpr ⟨row_in, above⟩
  rw [whole, List.mem_append] at member
  refine member.resolve_right fun behind => ?_
  have := (mem_above.mp behind).2
  omega

end Worlds

def batches (listener : PostgresListener) : List (List ListenerRow) :=
  listener.pulled.map fun rows => rows.filterMap fun row => row.2.entry

def Mirrors (settings : Settings) (windowS : Int) (listener : PostgresListener) : Prop :=
  listener.window = ingestAll settings.lower windowS (batches listener)

/-- A read of some queries over a connection that stands: cursors stay, rows are only added. -/
structure Follows (settings : Settings) (windowS : Int) (before after : PostgresListener) : Prop where
  connected : after.connected = before.connected
  cursors : after.cursors = before.cursors
  asked : before.asked ≤ after.asked
  pulled : before.pulled <+: after.pulled
  mirrors : Mirrors settings windowS before → Mirrors settings windowS after

def Pulled (listener : PostgresListener) (name : String) (row : LedgerRow) : Prop :=
  (name, row) ∈ listener.pulled.flatten

section Operations

variable {world : World} {settings : Settings} {windowS : Int}

theorem Follows.refl (listener : PostgresListener) : Follows settings windowS listener listener :=
  ⟨rfl, rfl, le_rfl, List.prefix_refl _, id⟩

theorem Follows.trans {first second third : PostgresListener}
    (one : Follows settings windowS first second) (two : Follows settings windowS second third) :
    Follows settings windowS first third where
  connected := two.connected.trans one.connected
  cursors := two.cursors.trans one.cursors
  asked := one.asked.trans two.asked
  pulled := one.pulled.trans two.pulled
  mirrors := two.mirrors ∘ one.mirrors

theorem Pulled.mono {before after : PostgresListener} (grown : before.pulled <+: after.pulled)
    {name : String} {row : LedgerRow} (was : Pulled before name row) : Pulled after name row := by
  obtain ⟨added, whole⟩ := grown
  rw [Pulled, ← whole, List.flatten_append]
  exact List.mem_append_left _ was

theorem query_connected {Answer : Type} (world : World) (read : Ledger → Answer) {listener : PostgresListener}
    (connected : listener.connected = true) :
    (listener.query world read).2 = { listener with asked := listener.asked + 1 } ∧
      ∀ answer, (listener.query world read).1 = some answer →
        answer = read (world.ledger listener.asked) := by
  rw [PostgresListener.query, if_pos connected, PostgresListener.ask]
  split
  · exact ⟨rfl, fun _ none => nomatch none⟩
  · exact ⟨rfl, fun _ same => (Option.some.inj same).symm⟩

theorem Follows.asked_next (listener : PostgresListener) :
    Follows settings windowS listener { listener with asked := listener.asked + 1 } :=
  ⟨rfl, rfl, Nat.le_succ _, List.prefix_refl _, id⟩

theorem Follows.take (name : String) (rows : List LedgerRow) (listener : PostgresListener) :
    Follows settings windowS listener (listener.take settings name rows) where
  connected := rfl
  cursors := rfl
  asked := le_rfl
  pulled := List.prefix_append _ _
  mirrors := by
    intro mirrors
    have added : batches (listener.take settings name rows) =
        batches listener ++ [rows.filterMap LedgerRow.entry] := by
      simp [batches, PostgresListener.take, List.filterMap_map]
    rw [Mirrors, added, ingestAll_snoc, ← mirrors]
    rfl

theorem pulled_take {name : String} {rows : List LedgerRow} {row : LedgerRow}
    (member : row ∈ rows) (listener : PostgresListener) :
    Pulled (listener.take settings name rows) name row := by
  rw [Pulled, PostgresListener.take, List.flatten_append, List.flatten_singleton]
  exact List.mem_append_right _ (List.mem_map_of_mem member)

end Operations

section Seeking

variable {world : World} {settings : Settings} {windowS : Int}

structure Divides (world : World) (name : String) (sinceMs cursor : Int) : Prop where
  old : ∀ row, Ever world name row → row.sequence ≤ cursor → row.eventAtMs < sinceMs
  new : ∀ row, Ever world name row → cursor < row.sequence → sinceMs ≤ row.eventAtMs

theorem seekFrom_follows (name : String) (sinceMs : Int) (fuel : Nat) (low high : Int)
    (listener : PostgresListener) (connected : listener.connected = true) :
    Follows settings windowS listener (seekFrom world name sinceMs fuel low high listener).2 := by
  induction fuel generalizing low high listener with
  | zero => exact .refl listener
  | succ fuel ih =>
    rw [seekFrom]
    split
    · have asked := (query_connected world (fun ledger =>
        firstFrom LedgerRow.sequence (ledger.rows name) ((low + high + 1) / 2)) connected).1
      have next : Follows settings windowS listener _ := .asked_next listener
      rw [← asked] at next
      dsimp only
      split
      · rename_i failed
        rwa [failed] at next
      · rename_i answered
        rw [answered] at next
        split
        · exact next.trans (ih _ _ _ (next.connected.trans connected))
        · exact next.trans (ih _ _ _ (next.connected.trans connected))
    · exact .refl listener

theorem seekFrom_divides (name : String) (sinceMs : Int) (fuel : Nat) (low high : Int)
    (listener : PostgresListener) (connected : listener.connected = true)
    (enough : (high - low).toNat ≤ fuel)
    (old : ∀ row, Ever world name row → row.sequence ≤ low → row.eventAtMs < sinceMs)
    (new : ∀ row, Ever world name row → high < row.sequence → sinceMs ≤ row.eventAtMs)
    {last : LedgerRow} (last_in : last ∈ (world.ledger listener.asked).rows name)
    (bounded : high ≤ last.sequence) {cursor : Int}
    (found : (seekFrom world name sinceMs fuel low high listener).1 = some cursor) :
    Divides world name sinceMs cursor := by
  induction fuel generalizing low high listener with
  | zero =>
    obtain rfl := Option.some.inj found
    exact ⟨old, fun row ever above => new row ever (by omega)⟩
  | succ fuel ih =>
    rw [seekFrom] at found
    split at found
    · rename_i apart
      obtain ⟨asked, answer⟩ := query_connected world (fun ledger =>
        firstFrom LedgerRow.sequence (ledger.rows name) ((low + high + 1) / 2)) connected
      have later : last ∈ (world.ledger (listener.asked + 1)).rows name :=
        (world.grows listener.asked name).mem last_in
      -- the last row of the instance stands at or above the middle
      obtain ⟨first, first_found⟩ : ∃ first, firstFrom LedgerRow.sequence
          ((world.ledger listener.asked).rows name) ((low + high + 1) / 2) = some first := by
        apply Option.isSome_iff_exists.mp
        rw [firstFrom, List.find?_isSome]
        exact ⟨last, last_in, decide_eq_true (by omega)⟩
      dsimp only at found
      split at found
      · cases found
      · rename_i reply after answered
        rw [answered] at asked answer
        obtain rfl := answer reply rfl
        obtain rfl : after = { listener with asked := listener.asked + 1 } := asked
        rw [first_found] at found
        split at found
        · rename_i aged
          have aged : first.eventAtMs < sinceMs := by simpa using aged
          exact ih ((low + high + 1) / 2) high { listener with asked := listener.asked + 1 } connected
            (by omega) (fun row ever below => ever.old_below first_found aged below) new later
            bounded found
        · rename_i young
          have young : sinceMs ≤ first.eventAtMs := by simpa using young
          exact ih low ((low + high + 1) / 2 - 1) { listener with asked := listener.asked + 1 } connected
            (by omega) old (fun row ever above => ever.new_above first_found young (by omega)) later
            (by omega) found
    · obtain rfl := Option.some.inj found
      exact ⟨old, fun row ever above => new row ever (by omega)⟩

def Numbered (world : World) : Prop := ∀ name row, Ever world name row → 1 ≤ row.sequence

theorem seek_divides (numbered : Numbered world) (name : String) (sinceMs : Int)
    (listener : PostgresListener) (connected : listener.connected = true) {last : LedgerRow}
    (last_in : last ∈ (world.ledger listener.asked).rows name) (recent : sinceMs ≤ last.eventAtMs)
    {cursor : Int} (found : (seek world name last.sequence sinceMs listener).1 = some cursor) :
    Divides world name sinceMs cursor := by
  refine seekFrom_divides name sinceMs _ 0 last.sequence listener connected (by omega) ?_ ?_
    last_in le_rfl found
  · intro row ever below
    have := numbered name row ever
    omega
  · intro row ever above
    exact recent.trans (ever.later last_in above.le)

end Seeking

section Pulling

variable {world : World} {settings : Settings} {windowS : Int}

def waiting (world : World) (name : String) (cursor : Int) (asked : Nat) : List LedgerRow :=
  above LedgerRow.sequence ((world.ledger asked).rows name) cursor

theorem waiting_grows (world : World) (name : String) (cursor : Int) {early late : Nat} (order : early ≤ late) :
    waiting world name cursor early <+: waiting world name cursor late :=
  above_front (rows_grow world name order) cursor

structure Reads (world : World) (name : String) (cursor budget : Int) (after : PostgresListener)
    (moved left : Int) : Prop where
  forward : cursor ≤ moved
  pulled : ∀ row, Ever world name row → cursor < row.sequence → row.sequence ≤ moved →
    Pulled after name row
  spent : ∀ late, after.asked ≤ late →
    ((waiting world name cursor late).length : Int) + left =
      budget + (waiting world name moved late).length

theorem Reads.still (name : String) (cursor budget : Int) (after : PostgresListener) :
    Reads world name cursor budget after cursor budget where
  forward := le_rfl
  pulled := by
    intro row _ above below
    omega
  spent := by
    intro late _
    omega

theorem Reads.one (settings : Settings) (name : String) (cursor budget : Int) {limit : Nat} (listener : PostgresListener)
    {rows : List LedgerRow} (answer : rows = batch LedgerRow.sequence
      ((world.ledger listener.asked).rows name) cursor limit)
    {last : LedgerRow} (ends : rows.getLast? = some last) :
    Reads world name cursor budget
      (PostgresListener.take settings name rows { listener with asked := listener.asked + 1 })
      last.sequence (budget - rows.length) where
  forward := by
    have last_in : last ∈ rows := List.mem_of_getLast? ends
    rw [answer] at last_in
    exact (mem_above.mp (List.mem_of_mem_take last_in)).2.le
  pulled := by
    intro row ever above below
    rw [answer] at ends ⊢
    exact pulled_take (ever.in_batch ends above below) _
  spent := by
    intro late later
    have read : rows <+: waiting world name cursor late := by
      rw [answer]
      exact batch_front (rows_grow world name ((Nat.le_succ _).trans later)) cursor limit
    have whole := (ordered_rows (world.ledger late) name).above_next read ends
    have sizes : (waiting world name cursor late).length =
        rows.length + (waiting world name last.sequence late).length := by
      rw [waiting, whole, List.length_append]
      rfl
    omega

theorem Reads.trans {name : String} {cursor budget middle left moved rest : Int}
    {first second : PostgresListener} (one : Reads world name cursor budget first middle left)
    (two : Reads world name middle left second moved rest)
    (follows : Follows settings windowS first second) :
    Reads world name cursor budget second moved rest where
  forward := one.forward.trans two.forward
  pulled := by
    intro row ever above below
    rcases le_or_gt row.sequence middle with behind | ahead
    · exact (one.pulled row ever above behind).mono follows.pulled
    · exact two.pulled row ever ahead below
  spent := by
    intro late later
    have first_part := one.spent late (follows.asked.trans later)
    have second_part := two.spent late later
    omega

def nextRows (world : World) (name : String) (cursor budget : Int) (asked : Nat) : List LedgerRow :=
  batch LedgerRow.sequence ((world.ledger asked).rows name) cursor
    (min (listenerTailRows : Int) budget).toNat

def taken (world : World) (settings : Settings) (name : String) (cursor budget : Int)
    (listener : PostgresListener) : PostgresListener :=
  PostgresListener.take settings name (nextRows world name cursor budget listener.asked)
    { listener with asked := listener.asked + 1 }

theorem pullFrom_succ (world : World) (settings : Settings) (name : String) (fuel : Nat) (cursor budget : Int)
    (listener : PostgresListener) (connected : listener.connected = true) (paid : 0 < budget) :
    let rows := nextRows world name cursor budget listener.asked
    let asked := { listener with asked := listener.asked + 1 }
    let taken := taken world settings name cursor budget listener
    pullFrom world settings name (fuel + 1) cursor budget listener = (none, asked) ∨
      (rows = [] ∧
        pullFrom world settings name (fuel + 1) cursor budget listener =
          (some (cursor, budget), asked)) ∨
      ∃ last, rows.getLast? = some last ∧
        ((rows.length < listenerTailRows ∧
            pullFrom world settings name (fuel + 1) cursor budget listener =
              (some (last.sequence, budget - rows.length), taken)) ∨
          (listenerTailRows ≤ rows.length ∧
            pullFrom world settings name (fuel + 1) cursor budget listener =
              pullFrom world settings name fuel last.sequence (budget - rows.length) taken)) := by
  intro rows asked taken
  obtain ⟨next, answer⟩ := query_connected world (fun ledger =>
    batch LedgerRow.sequence (ledger.rows name) cursor (min (listenerTailRows : Int) budget).toNat)
    connected
  rw [pullFrom, if_pos paid]
  cases replied : listener.query world fun ledger => batch LedgerRow.sequence (ledger.rows name)
      cursor (min (listenerTailRows : Int) budget).toNat with
  | mk reply after =>
    rw [replied] at next answer
    obtain rfl : after = asked := next
    cases reply with
    | none => exact .inl rfl
    | some got =>
      obtain rfl : got = rows := answer got rfl
      right
      cases ends : rows.getLast? with
      | none => exact .inl ⟨List.getLast?_eq_none_iff.mp ends, by simp only [ends]⟩
      | some last =>
        refine .inr ⟨last, rfl, ?_⟩
        simp only [ends]
        rcases lt_or_ge rows.length listenerTailRows with few | many
        · exact .inl ⟨few, if_pos few⟩
        · exact .inr ⟨many, if_neg (not_lt.mpr many)⟩

theorem pullFrom_follows (world : World) (settings : Settings) (windowS : Int) (name : String) (fuel : Nat) (cursor budget : Int)
    (listener : PostgresListener) (connected : listener.connected = true) :
    Follows settings windowS listener
      (pullFrom world settings name fuel cursor budget listener).2 := by
  induction fuel generalizing cursor budget listener with
  | zero => exact .refl listener
  | succ fuel ih =>
    by_cases paid : 0 < budget
    · have next : Follows settings windowS listener { listener with asked := listener.asked + 1 } :=
        .asked_next listener
      rcases pullFrom_succ world settings name fuel cursor budget listener
        connected paid with failed | ⟨-, stopped⟩ | ⟨last, -, ⟨-, ended⟩ | ⟨-, goes_on⟩⟩
      · rw [failed]
        exact next
      · rw [stopped]
        exact next
      · rw [ended]
        exact next.trans (.take name _ _)
      · rw [goes_on]
        exact (next.trans (.take name _ _)).trans (ih _ _ _ connected)
    · rw [pullFrom, if_neg paid]
      exact .refl listener

theorem pullFrom_reads (name : String) (fuel : Nat) (cursor budget : Int)
    (listener : PostgresListener) (connected : listener.connected = true) {moved left : Int}
    (done : (pullFrom world settings name fuel cursor budget listener).1 = some (moved, left)) :
    Reads world name cursor budget (pullFrom world settings name fuel cursor budget listener).2
      moved left := by
  induction fuel generalizing cursor budget listener with
  | zero =>
    obtain ⟨rfl, rfl⟩ := Prod.mk.inj (Option.some.inj done)
    exact .still name _ _ _
  | succ fuel ih =>
    by_cases paid : 0 < budget
    · rcases pullFrom_succ world settings name fuel cursor budget listener
        connected paid with failed | ⟨-, stopped⟩ | ⟨last, ends, ⟨-, ended⟩ | ⟨-, goes_on⟩⟩
      · rw [failed] at done
        cases done
      · rw [stopped] at done ⊢
        obtain ⟨rfl, rfl⟩ := Prod.mk.inj (Option.some.inj done)
        exact .still name _ _ _
      · rw [ended] at done ⊢
        obtain ⟨rfl, rfl⟩ := Prod.mk.inj (Option.some.inj done)
        exact .one settings name cursor budget listener rfl ends
      · rw [goes_on] at done ⊢
        exact (Reads.one settings name cursor budget listener rfl ends).trans (ih _ _ _ connected done)
          (pullFrom_follows world settings 0 name fuel _ _ _ connected)
    · rw [pullFrom, if_neg paid] at done ⊢
      obtain ⟨rfl, rfl⟩ := Prod.mk.inj (Option.some.inj done)
      exact .still name _ _ _

/-- When the budget holds for what is waiting at the end, nothing that was there at the start
is left above the cursor. -/
theorem pullFrom_empties (name : String) (fuel : Nat) (cursor budget : Int)
    (listener : PostgresListener) (connected : listener.connected = true) {moved left : Int}
    (done : (pullFrom world settings name fuel cursor budget listener).1 = some (moved, left))
    (enough : budget.toNat ≤ fuel) {late : Nat}
    (later : (pullFrom world settings name fuel cursor budget listener).2.asked ≤ late)
    (fits : ((waiting world name cursor late).length : Int) ≤ budget) :
    waiting world name moved listener.asked = [] := by
  have nothing : ∀ (cursor : Int) (early : Nat), early ≤ late →
      waiting world name cursor late = [] → waiting world name cursor early = [] := by
    intro cursor early order empty
    have grown := waiting_grows world name cursor order
    rw [empty] at grown
    exact List.prefix_nil.mp grown
  induction fuel generalizing cursor budget listener with
  | zero =>
    obtain ⟨rfl, rfl⟩ := Prod.mk.inj (Option.some.inj done)
    exact nothing _ _ later (List.eq_nil_of_length_eq_zero (by omega))
  | succ fuel ih =>
    by_cases paid : 0 < budget
    · have order : listener.asked ≤ late :=
        (pullFrom_follows world settings 0 name (fuel + 1) cursor budget
          listener connected).asked.trans later
      rcases pullFrom_succ world settings name fuel cursor budget listener
        connected paid with failed | ⟨empty, stopped⟩ | ⟨last, ends, ⟨few, ended⟩ | ⟨many, goes_on⟩⟩
      · rw [failed] at done
        cases done
      · rw [stopped] at done
        obtain ⟨rfl, rfl⟩ := Prod.mk.inj (Option.some.inj done)
        rcases List.take_eq_nil_iff.mp empty with zero | none
        · have : (0 : Int) < min (listenerTailRows : Int) budget := lt_min (by decide) paid
          omega
        · exact none
      · -- a short batch leaves rows only when it is cut by the budget
        rw [ended] at done
        obtain ⟨rfl, rfl⟩ := Prod.mk.inj (Option.some.inj done)
        have whole := (ordered_rows (world.ledger listener.asked) name).above_next
          (List.take_prefix _ _) ends
        have sizes := congrArg List.length whole
        rw [List.length_append] at sizes
        have grown := (waiting_grows world name cursor order).length_le
        by_contra left_over
        have some_left := List.length_pos_of_ne_nil left_over
        have cut := List.length_take (i := (min (listenerTailRows : Int) budget).toNat)
          (l := above LedgerRow.sequence ((world.ledger listener.asked).rows name) cursor)
        simp only [waiting, nextRows, batch] at *
        omega
      · rw [goes_on] at done later
        have follows := pullFrom_follows world settings 0 name fuel last.sequence
          (budget - (nextRows world name cursor budget listener.asked).length)
          (taken world settings name cursor budget listener) connected
        have answer : nextRows world name cursor budget listener.asked =
            batch LedgerRow.sequence ((world.ledger listener.asked).rows name) cursor
              (min (listenerTailRows : Int) budget).toNat := rfl
        have paid_for := (Reads.one settings name cursor budget listener answer ends).spent late
          (follows.asked.trans later)
        have one : 0 < listenerTailRows := by decide
        have tail := ih last.sequence
          (budget - (nextRows world name cursor budget listener.asked).length)
          (taken world settings name cursor budget listener) connected done (by omega) later
          (by omega)
        have grown := waiting_grows world name moved (Nat.le_succ listener.asked)
        rw [show waiting world name moved (Nat.succ listener.asked) = [] from tail] at grown
        exact List.prefix_nil.mp grown
    · rw [pullFrom, if_neg paid] at done later
      obtain ⟨rfl, rfl⟩ := Prod.mk.inj (Option.some.inj done)
      exact nothing _ _ later (List.eq_nil_of_length_eq_zero (by omega))

end Pulling

section Refreshing

variable {world : World} {settings : Settings} {windowS : Int}

/-- What is at or below a cursor has been read, or is older than `sinceMs`. -/
def Behind (world : World) (listener : PostgresListener) (name : String) (cursor sinceMs : Int) : Prop :=
  ∀ row, Ever world name row → row.sequence ≤ cursor →
    Pulled listener name row ∨ row.eventAtMs < sinceMs

/-- What a refresh can do: rows are added, stored cursors move over rows that are read, and a
cursor that is new divides the rows by their age. -/
structure Tails (world : World) (settings : Settings) (windowS sinceMs : Int)
    (before after : PostgresListener) : Prop where
  asked : before.asked ≤ after.asked
  pulled : before.pulled <+: after.pulled
  mirrors : Mirrors settings windowS before → Mirrors settings windowS after
  forward : ∀ name cursor, before.cursors.get name = some cursor →
    ∃ moved, after.cursors.get name = some moved ∧ cursor ≤ moved ∧
      ∀ row, Ever world name row → cursor < row.sequence → row.sequence ≤ moved →
        Pulled after name row
  behind : Numbered world → ∀ name moved, after.cursors.get name = some moved →
    (∃ cursor, before.cursors.get name = some cursor ∧
      ∀ age, Behind world before name cursor age → Behind world after name moved age) ∨
    Behind world after name moved sinceMs

theorem Behind.mono {before after : PostgresListener} (grown : before.pulled <+: after.pulled)
    {name : String} {cursor age : Int} (behind : Behind world before name cursor age) :
    Behind world after name cursor age :=
  fun row ever below => (behind row ever below).imp_left fun was => was.mono grown

theorem Behind.later {listener : PostgresListener} {name : String} {cursor age later : Int}
    (behind : Behind world listener name cursor age) (order : age ≤ later) :
    Behind world listener name cursor later :=
  fun row ever below => (behind row ever below).imp_right fun old => old.trans_le order

theorem Reads.behind {name : String} {cursor budget moved left age : Int}
    {before after : PostgresListener} (reads : Reads world name cursor budget after moved left)
    (grown : before.pulled <+: after.pulled) (behind : Behind world before name cursor age) :
    Behind world after name moved age := by
  intro row ever below
  rcases le_or_gt row.sequence cursor with at_or_below | above
  · exact behind.mono grown row ever at_or_below
  · exact .inl (reads.pulled row ever above below)

theorem Follows.tails {before after : PostgresListener}
    (follows : Follows settings windowS before after) (sinceMs : Int) :
    Tails world settings windowS sinceMs before after where
  asked := follows.asked
  pulled := follows.pulled
  mirrors := follows.mirrors
  forward := by
    intro name cursor stored
    refine ⟨cursor, follows.cursors ▸ stored, le_rfl, fun row _ above below => ?_⟩
    omega
  behind := by
    intro _ name moved stored
    exact .inl ⟨moved, follows.cursors ▸ stored, fun age behind => behind.mono follows.pulled⟩

theorem Tails.trans {sinceMs : Int} {first second third : PostgresListener}
    (one : Tails world settings windowS sinceMs first second)
    (two : Tails world settings windowS sinceMs second third) :
    Tails world settings windowS sinceMs first third where
  asked := one.asked.trans two.asked
  pulled := one.pulled.trans two.pulled
  mirrors := two.mirrors ∘ one.mirrors
  forward := by
    intro name cursor stored
    obtain ⟨middle, stored, ahead, read⟩ := one.forward name cursor stored
    obtain ⟨moved, stored, further, later⟩ := two.forward name middle stored
    refine ⟨moved, stored, ahead.trans further, fun row ever above below => ?_⟩
    rcases le_or_gt row.sequence middle with here | there
    · exact (read row ever above here).mono two.pulled
    · exact later row ever there below
  behind := by
    intro numbered name moved stored
    rcases two.behind numbered name moved stored with ⟨middle, stored, carried⟩ | new
    · rcases one.behind numbered name middle stored with ⟨cursor, stored, before⟩ | new
      · exact .inl ⟨cursor, stored, fun age behind => carried age (before age behind)⟩
      · exact .inr (carried sinceMs new)
    · exact .inr new

def Listed (world : World) (sinceMs : Int) (asked : Nat) (entry : String × Int) : Prop :=
  ∃ last ∈ (world.ledger asked).rows entry.1, sinceMs ≤ last.eventAtMs ∧ last.sequence = entry.2

theorem Listed.later {sinceMs : Int} {early late : Nat} {entry : String × Int}
    (listed : Listed world sinceMs early entry) (order : early ≤ late) :
    Listed world sinceMs late entry := by
  obtain ⟨last, last_in, recent, same⟩ := listed
  exact ⟨last, (rows_grow world entry.1 order).mem last_in, recent, same⟩

theorem cursorOf_follows (name : String) (lastSequence sinceMs : Int) {listener : PostgresListener}
    (connected : listener.connected = true) :
    Follows settings windowS listener (cursorOf world name lastSequence sinceMs listener).2 := by
  unfold cursorOf
  split
  · exact .refl listener
  · exact seekFrom_follows name sinceMs _ _ _ listener connected

theorem refreshEach_cons (world : World) (settings : Settings) (sinceMs : Int) (name : String)
    (lastSequence : Int) (rest : List (String × Int)) (budget : Int) (listener : PostgresListener) :
    let start := cursorOf world name lastSequence sinceMs listener
    let all := refreshEach world settings sinceMs ((name, lastSequence) :: rest) budget listener
    (start.1 = none ∧ all = (none, start.2)) ∨
      ∃ cursor, start.1 = some cursor ∧
        let pulled := pullFrom world settings name budget.toNat cursor budget start.2
        (pulled.1 = none ∧ all = (none, pulled.2)) ∨
          ∃ moved left, pulled.1 = some (moved, left) ∧
            all = refreshEach world settings sinceMs rest left (pulled.2.store name moved) := by
  intro start all
  cases sought : start with
  | mk reply middle =>
    have opening : cursorOf world name lastSequence sinceMs listener = (reply, middle) := sought
    cases reply with
    | none => exact .inl ⟨rfl, by simp only [all, refreshEach, opening]⟩
    | some cursor =>
      refine .inr ⟨cursor, rfl, ?_⟩
      simp only [all, refreshEach, opening]
      cases pullFrom world settings name budget.toNat cursor budget middle with
      | mk reply after =>
        cases reply with
        | none => exact .inl ⟨rfl, rfl⟩
        | some both => exact .inr ⟨both.1, both.2, rfl, rfl⟩

theorem tails_store {sinceMs lastSequence cursor budget moved left : Int} {name : String}
    {listener after : PostgresListener} (connected : listener.connected = true)
    (listed : Listed world sinceMs listener.asked (name, lastSequence))
    (starts : (cursorOf world name lastSequence sinceMs listener).1 = some cursor)
    (follows : Follows settings windowS (cursorOf world name lastSequence sinceMs listener).2 after)
    (reads : Reads world name cursor budget after moved left) :
    Tails world settings windowS sinceMs listener (after.store name moved) := by
  have whole : Follows settings windowS listener after :=
    (cursorOf_follows name lastSequence sinceMs connected).trans follows
  have others : ∀ other, other ≠ name →
      (after.cursors.assign name moved).get other = listener.cursors.get other := by
    intro other apart
    rw [get_assign, if_neg apart, whole.cursors]
  have here : (after.cursors.assign name moved).get name = some moved := by
    rw [get_assign, if_pos rfl]
  refine ⟨whole.asked, whole.pulled, whole.mirrors, ?_, ?_⟩
  · intro other known stored
    by_cases same : other = name
    · subst same
      have from_known : cursor = known := by
        simp only [cursorOf, stored] at starts
        exact (Option.some.inj starts).symm
      subst from_known
      exact ⟨moved, here, reads.forward, reads.pulled⟩
    · refine ⟨known, (others other same).trans stored, le_rfl, fun row _ above below => ?_⟩
      omega
  · intro numbered other known stored
    by_cases same : other = name
    · subst same
      obtain rfl := Option.some.inj (here.symm.trans stored)
      cases held : listener.cursors.get other with
      | some was =>
        simp only [cursorOf, held] at starts
        obtain rfl := Option.some.inj starts
        exact .inl ⟨was, rfl, fun age behind => reads.behind whole.pulled behind⟩
      | none =>
        simp only [cursorOf, held] at starts
        obtain ⟨last, last_in, recent, rfl⟩ := listed
        have divides := seek_divides numbered other sinceMs listener connected last_in recent starts
        exact .inr (reads.behind whole.pulled fun row ever below => .inr (divides.old row ever below))
    · exact .inl ⟨known, (others other same).symm.trans stored,
        fun age behind => behind.mono whole.pulled⟩

theorem refreshEach_tails (world : World) (settings : Settings) (windowS sinceMs : Int) (live : List (String × Int)) (budget : Int)
    (listener : PostgresListener) (connected : listener.connected = true)
    (listed : ∀ entry ∈ live, Listed world sinceMs listener.asked entry) :
    Tails world settings windowS sinceMs listener
        (refreshEach world settings sinceMs live budget listener).2 ∧
      (refreshEach world settings sinceMs live budget listener).2.connected = true := by
  induction live generalizing budget listener with
  | nil => exact ⟨(Follows.refl listener).tails sinceMs, connected⟩
  | cons entry rest ih =>
    obtain ⟨name, lastSequence⟩ := entry
    have first : Follows settings windowS listener
        (cursorOf world name lastSequence sinceMs listener).2 :=
      cursorOf_follows name lastSequence sinceMs connected
    have standing := first.connected.trans connected
    rcases refreshEach_cons world settings sinceMs name lastSequence rest budget listener with
      ⟨-, result⟩ | ⟨cursor, starts, pulled⟩
    · rw [result]
      exact ⟨first.tails sinceMs, standing⟩
    · have second := pullFrom_follows world settings windowS name budget.toNat cursor budget _ standing
      rcases pulled with ⟨-, result⟩ | ⟨moved, left, read, result⟩
      · rw [result]
        exact ⟨(first.trans second).tails sinceMs, second.connected.trans standing⟩
      · have step := tails_store connected (listed _ List.mem_cons_self) starts second
          (pullFrom_reads name budget.toNat cursor budget _ standing read)
        obtain ⟨tail, still⟩ := ih left (PostgresListener.store name moved _)
          (second.connected.trans standing) fun entry member => (listed entry (List.mem_cons_of_mem _ member)).later
            (first.asked.trans second.asked)
        rw [result]
        exact ⟨step.trans tail, still⟩

/-- The rows an instance will have been tailed for by some time: those above its stored cursor,
or those of the window where it has none. -/
def unread (world : World) (listener : PostgresListener) (sinceMs : Int) (late : Nat)
    (name : String) : Nat :=
  match listener.cursors.get name with
  | some cursor => (waiting world name cursor late).length
  | none => ((world.ledger late).rows name).countP fun row => sinceMs ≤ row.eventAtMs

def backlog (world : World) (listener : PostgresListener) (sinceMs : Int) (late : Nat)
    (live : List (String × Int)) : Nat :=
  (live.map fun entry => unread world listener sinceMs late entry.1).sum

theorem unread_others {listener after : PostgresListener} (sinceMs : Int) (late : Nat)
    {names : List (String × Int)}
    (same : ∀ entry ∈ names, after.cursors.get entry.1 = listener.cursors.get entry.1) :
    backlog world after sinceMs late names = backlog world listener sinceMs late names := by
  unfold backlog
  refine congrArg List.sum (List.map_congr_left fun entry member => ?_)
  rw [unread, unread, same entry member]

theorem cursorOf_spec (numbered : Numbered world) {sinceMs lastSequence cursor : Int}
    {name : String} {listener : PostgresListener} (connected : listener.connected = true)
    (listed : Listed world sinceMs listener.asked (name, lastSequence))
    (starts : (cursorOf world name lastSequence sinceMs listener).1 = some cursor)
    (stored : ∀ name cursor, listener.cursors.get name = some cursor →
      Behind world listener name cursor sinceMs) (late : Nat) :
    Behind world listener name cursor sinceMs ∧
      (waiting world name cursor late).length ≤ unread world listener sinceMs late name := by
  cases held : listener.cursors.get name with
  | some was =>
    simp only [cursorOf, held] at starts
    obtain rfl := Option.some.inj starts
    exact ⟨stored name was held, by rw [unread, held]⟩
  | none =>
    simp only [cursorOf, held] at starts
    obtain ⟨last, last_in, recent, rfl⟩ := listed
    have divides := seek_divides numbered name sinceMs listener connected last_in recent starts
    refine ⟨fun row ever below => .inr (divides.old row ever below), ?_⟩
    simp only [unread, held, waiting, above, ← List.countP_eq_length_filter]
    refine List.countP_mono_left fun row row_in ahead => ?_
    exact decide_eq_true (divides.new row ⟨late, row_in⟩ (of_decide_eq_true ahead))

/-- The instance at the head of the list: its rows of the window are read, and the budget that
is left holds for the rest. -/
theorem head_reads (numbered : Numbered world) {sinceMs lastSequence cursor budget moved left : Int}
    {name : String} {rest : List (String × Int)} {listener after : PostgresListener}
    (connected : listener.connected = true) (apart : name ∉ rest.map Prod.fst)
    (listed : Listed world sinceMs listener.asked (name, lastSequence))
    (stored : ∀ name cursor, listener.cursors.get name = some cursor →
      Behind world listener name cursor sinceMs)
    (starts : (cursorOf world name lastSequence sinceMs listener).1 = some cursor)
    (read : pullFrom world settings name budget.toNat cursor budget
      (cursorOf world name lastSequence sinceMs listener).2 = (some (moved, left), after))
    {late : Nat} (later : after.asked ≤ late)
    (fits : (backlog world listener sinceMs late ((name, lastSequence) :: rest) : Int) ≤ budget) :
    (∀ row ∈ (world.ledger listener.asked).rows name, sinceMs ≤ row.eventAtMs →
        Pulled after name row) ∧
      (backlog world (after.store name moved) sinceMs late rest : Int) ≤ left := by
  have first : Follows settings 0 listener (cursorOf world name lastSequence sinceMs listener).2 :=
    cursorOf_follows name lastSequence sinceMs connected
  have standing := first.connected.trans connected
  have second := pullFrom_follows world settings 0 name budget.toNat cursor budget _ standing
  have got : (pullFrom world settings name budget.toNat cursor budget
      (cursorOf world name lastSequence sinceMs listener).2).1 = some (moved, left) := by rw [read]
  have reads := pullFrom_reads name budget.toNat cursor budget _ standing got
  rw [read] at second reads
  obtain ⟨behind, bounded⟩ := cursorOf_spec numbered connected listed starts stored late
  have total : backlog world listener sinceMs late ((name, lastSequence) :: rest) =
      unread world listener sinceMs late name + backlog world listener sinceMs late rest :=
    List.sum_cons
  have others : backlog world (after.store name moved) sinceMs late rest =
      backlog world listener sinceMs late rest := by
    refine unread_others sinceMs late fun entry member => ?_
    have distinct : entry.1 ≠ name := fun same => apart (same ▸ List.mem_map_of_mem member)
    show (after.cursors.assign name moved).get entry.1 = _
    rw [get_assign, if_neg distinct, second.cursors, first.cursors]
  constructor
  · intro row row_in recent
    have order : (pullFrom world settings name budget.toNat cursor budget
        (cursorOf world name lastSequence sinceMs listener).2).2.asked ≤ late := by
      rw [read]
      exact later
    have empty := pullFrom_empties name budget.toNat cursor budget _ standing got le_rfl order
      (by omega)
    have row_later := (rows_grow world name first.asked).mem row_in
    have reached : row.sequence ≤ moved := by
      by_contra beyond
      have left_over : row ∈ waiting world name moved
          (cursorOf world name lastSequence sinceMs listener).2.asked :=
        mem_above.mpr ⟨row_later, not_le.mp beyond⟩
      rw [empty] at left_over
      cases left_over
    rcases reads.behind (first.pulled.trans second.pulled) behind row ⟨_, row_in⟩ reached with
      pulled | old
    · exact pulled
    · omega
  · have paid := reads.spent late later
    omega

theorem refreshEach_reads (numbered : Numbered world) (sinceMs : Int) (live : List (String × Int))
    (names : (live.map Prod.fst).Nodup) (budget : Int) (listener : PostgresListener)
    (connected : listener.connected = true)
    (listed : ∀ entry ∈ live, Listed world sinceMs listener.asked entry)
    (stored : ∀ name cursor, listener.cursors.get name = some cursor →
      Behind world listener name cursor sinceMs)
    (done : (refreshEach world settings sinceMs live budget listener).1 = some ()) {late : Nat}
    (later : (refreshEach world settings sinceMs live budget listener).2.asked ≤ late)
    (fits : (backlog world listener sinceMs late live : Int) ≤ budget) :
    ∀ entry ∈ live, ∀ row ∈ (world.ledger listener.asked).rows entry.1, sinceMs ≤ row.eventAtMs →
      Pulled (refreshEach world settings sinceMs live budget listener).2 entry.1 row := by
  induction live generalizing budget listener with
  | nil => exact fun _ member => nomatch member
  | cons entry rest ih =>
    obtain ⟨name, lastSequence⟩ := entry
    obtain ⟨apart, names⟩ := List.nodup_cons.mp names
    have here := listed _ List.mem_cons_self
    have first : Follows settings 0 listener
        (cursorOf world name lastSequence sinceMs listener).2 :=
      cursorOf_follows name lastSequence sinceMs connected
    have standing := first.connected.trans connected
    rcases refreshEach_cons world settings sinceMs name lastSequence rest budget listener with
      ⟨-, result⟩ | ⟨cursor, starts, ⟨-, result⟩ | ⟨moved, left, got, result⟩⟩
    · rw [result] at done
      cases done
    · rw [result] at done
      cases done
    · rw [result] at done later ⊢
      have second := pullFrom_follows world settings 0 name budget.toNat cursor budget _ standing
      have reads := pullFrom_reads name budget.toNat cursor budget _ standing got
      have step := tails_store connected here starts second reads
      cases read : pullFrom world settings name budget.toNat cursor budget
          (cursorOf world name lastSequence sinceMs listener).2 with
      | mk reply after =>
        rw [read] at got done later step second
        obtain rfl : reply = some (moved, left) := got
        have rest_listed : ∀ entry ∈ rest, Listed world sinceMs (after.store name moved).asked entry :=
          fun entry member => (listed entry (List.mem_cons_of_mem _ member)).later step.asked
        have rest_connected : (after.store name moved).connected = true :=
          second.connected.trans standing
        obtain ⟨tail, -⟩ := refreshEach_tails world settings 0 sinceMs rest left
          (after.store name moved) rest_connected rest_listed
        obtain ⟨head, fits⟩ := head_reads numbered connected apart here stored starts read
          (le_trans (show after.asked ≤ (after.store name moved).asked from le_rfl)
            (tail.asked.trans later)) fits
        -- what is stored now is behind its cursor as well
        have stored_next : ∀ other known, (after.store name moved).cursors.get other = some known →
            Behind world (after.store name moved) other known sinceMs := by
          intro other known held
          rcases step.behind numbered other known held with ⟨was, held, carried⟩ | new
          · exact carried sinceMs (stored other was held)
          · exact new
        intro entry member row row_in recent
        rcases List.mem_cons.mp member with rfl | inside
        · exact (head row row_in recent).mono tail.pulled
        · exact ih names left (after.store name moved) rest_connected rest_listed stored_next done
            later fits entry inside row ((rows_grow world entry.1 step.asked).mem row_in) recent

end Refreshing

end RhPools.ListenerCoverage
