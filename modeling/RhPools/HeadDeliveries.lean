import RhPools.HeadUnwinds
import RhPools.StoreRows

/-! A delivery keeps the tables sound: the events it brings are applied where they make the head
the fold, and events that are delivered once more leave it there. -/

namespace RhPools.HeadDeliveries
open OrderedTables MarketTables MarketStore ActivityBuckets PriceMarks LateEntries PoolHeads
  HeadSamples HeadSteps HeadLoops HeadRollbacks HeadUnwinds StoreRows

variable {arith : Arithmetic} {events : Events} {pools : OrderedTable PoolId PoolRow}
  {forward : Bool} {tables : PriceTables} {Lp : Type}

def Told (left right : Events) : Prop :=
  left.entries.map (fun entry => (entry.1, bare entry.2)) =
    right.entries.map fun entry => (entry.1, bare entry.2)

theorem told_modify (change : EventId → EventRow → EventRow)
    (kept : ∀ id row, bare (change id row) = bare row) : Told events (events.modify change) := by
  have entries : (events.modify change).entries =
      events.entries.map fun entry => (entry.1, change entry.1 entry.2) := rfl
  rw [Told, entries, List.map_map]
  apply List.map_congr_left
  intro entry _
  simp only [Function.comp_apply, kept]

theorem Told.entry {left right : Events} (same : Told left right) (entry : EventId × EventRow)
    (member : entry ∈ left.entries) :
    ∃ row, (entry.1, row) ∈ right.entries ∧ bare row = bare entry.2 := by
  have there : (entry.1, bare entry.2) ∈ right.entries.map fun entry => (entry.1, bare entry.2) :=
    same ▸ List.mem_map_of_mem member
  obtain ⟨other, inside, pair⟩ := List.mem_map.mp there
  obtain ⟨named, equal⟩ := Prod.mk.inj pair
  exact ⟨other.2, named ▸ inside, equal⟩

theorem Told.get {left right : Events} (same : Told left right) (id : EventId) (row : EventRow)
    (found : left.get id = some row) :
    ∃ other, right.get id = some other ∧ bare other = bare row := by
  obtain ⟨other, inside, equal⟩ := same.entry (id, row) ((get_some _ _ _).mp found)
  exact ⟨other, (get_some _ _ _).mpr inside, equal⟩

theorem Told.rows {left right : Events} (same : Told left right) (id : PoolId) :
    poolRows right id = poolRows left id := by
  have rows := congrArg (List.map Prod.snd) same
  simp only [List.map_map, Function.comp_def] at rows
  rw [poolRows, poolRows, rows]

theorem bare_terms {left right : EventRow} (same : bare left = bare right) :
    left.terms = right.terms ∧ left.place = right.place := by
  have terms := congrArg EventRow.terms same
  have place := congrArg EventRow.place same
  exact ⟨terms, place⟩

theorem Told.sampled {left right : Events} (same : Told left right) {waiting : List EventId}
    {samples : OrderedTable EventId Sample} {reserves : OrderedTable EventId ReserveSample}
    (sampled : Sampled arith left pools waiting samples reserves) :
    Sampled arith right pools waiting samples reserves := by
  have back : Told right left := same.symm
  constructor
  · intro entry member
    obtain ⟨row, found, pooled, placed, priced⟩ := sampled.known entry member
    obtain ⟨other, there, equal⟩ := same.get entry.1 row found
    obtain ⟨terms, place⟩ := bare_terms equal
    refine ⟨other, there, terms ▸ pooled, ?_, ?_⟩
    · rw [EventRow.order, place]
      exact placed
    · rw [EventRow.sqrt, terms]
      exact priced
  · intro id row poolId found pooled known priced ready
    obtain ⟨other, there, equal⟩ := back.get id row found
    obtain ⟨terms, -⟩ := bare_terms equal
    apply sampled.sampled id other poolId there (terms ▸ pooled) known _ ready
    rw [EventRow.sqrt, terms]
    exact priced
  · intro entry member
    obtain ⟨row, pool, found, pooled, known, placed, own, priced⟩ := sampled.paired entry member
    obtain ⟨other, there, equal⟩ := same.get entry.1 row found
    obtain ⟨terms, place⟩ := bare_terms equal
    refine ⟨other, pool, there, terms ▸ pooled, known, ?_, ?_, priced⟩
    · rw [EventRow.order, place]
      exact placed
    · rw [EventRow.reserves, terms]
      exact own
  · intro id row poolId pool found pooled known v2 own ready
    obtain ⟨other, there, equal⟩ := back.get id row found
    obtain ⟨terms, -⟩ := bare_terms equal
    apply sampled.reserved id other poolId pool there (terms ▸ pooled) known v2 _ ready
    rw [EventRow.reserves, terms]
    exact own

theorem Told.apart {left right : Events} (same : Told left right) (apart : ApartEvents left) :
    ApartEvents right := by
  have orders : left.entries.map (fun entry => EventRow.order entry.2) =
      right.entries.map fun entry => EventRow.order entry.2 := by
    have mapped := congrArg (List.map fun entry => EventRow.order entry.2) same
    simpa only [List.map_map, Function.comp_def, order_bare] using mapped
  have distinct : (left.entries.map fun entry => EventRow.order entry.2).Nodup :=
    List.pairwise_map.mpr apart
  rw [orders] at distinct
  exact List.pairwise_map.mp distinct

theorem Told.plain {left right : Events} (same : Told left right)
    (plain : PlainEvents arith pools left) : PlainEvents arith pools right := by
  intro entry member id pooled pool known
  have back : Told right left := same.symm
  obtain ⟨row, inside, equal⟩ := back.entry entry member
  obtain ⟨terms, -⟩ := bare_terms equal
  have own := plain (entry.1, row) inside id (terms ▸ pooled) pool known
  simp only [Plain, EventRow.sqrt, Arithmetic.before, terms] at own ⊢
  exact own

theorem Told.sound {left right : Events} (same : Told left right)
    (sound : Sound arith pools left tables) : Sound arith pools right tables :=
  { apart := same.apart sound.apart
    plain := same.plain sound.plain
    sampled := same.sampled sound.sampled
    valued := sound.valued
    heads := fun id pool known => by rw [same.rows]; exact sound.heads id pool known }

theorem mem_inPriceOrder (delivered : Delivered) (entry : EventId × EventRow) :
    entry ∈ inPriceOrder delivered ↔ entry ∈ delivered := List.mem_insertionSort _

theorem mem_known (db : Db Lp) (delivered : Delivered) (event : Known) :
    event ∈ knownEvents db delivered ↔ (event.id, event.row) ∈ delivered ∧
      event.row.terms.poolId = some event.poolId ∧ db.pools.get event.poolId = some event.pool := by
  rw [knownEvents, List.mem_filterMap]
  constructor
  · rintro ⟨entry, member, made⟩
    obtain ⟨id, pooled, made⟩ := Option.bind_eq_some_iff.mp made
    obtain ⟨pool, found, rfl⟩ := Option.map_eq_some_iff.mp made
    exact ⟨(mem_inPriceOrder _ _).mp member, pooled, found⟩
  · rintro ⟨member, pooled, found⟩
    refine ⟨(event.id, event.row), (mem_inPriceOrder _ _).mpr member, ?_⟩
    simp [pooled, found]

theorem known_listed (db : Db Lp) (pooled : db.pools = pools) (delivered : Delivered)
    (inside : ∀ entry ∈ delivered, entry ∈ db.events.entries)
    (plain : PlainEvents arith pools db.events) :
    ∀ event ∈ knownEvents db delivered, Listed arith db.events pools event := by
  intro event member
  obtain ⟨there, named, found⟩ := (mem_known db delivered event).mp member
  rw [pooled] at found
  have stored := inside _ there
  exact ⟨(get_some _ _ _).mpr stored, named, found, plain _ stored _ named _ found⟩

theorem mine_known (db : Db Lp) (delivered : Delivered) (id : PoolId) (pool : PoolRow)
    (known : db.pools.get id = some pool) : mine id (knownEvents db delivered) =
      ((inPriceOrder delivered).filter fun entry => entry.2.terms.poolId = some id).map
        fun entry => bare entry.2 := by
  rw [knownEvents]
  induction inPriceOrder delivered with
  | nil => rfl
  | cons entry rest ih =>
    rw [List.filterMap_cons, List.filter_cons]
    by_cases here : entry.2.terms.poolId = some id
    · simp only [here, Option.bind_some, known, Option.map_some, decide_true, if_true]
      rw [List.map_cons, ← ih]
      exact mine_this ⟨entry.1, entry.2, id, pool⟩ _
    · rw [if_neg (by simpa using here), ← ih]
      cases pooled : entry.2.terms.poolId with
      | none => rfl
      | some other =>
        cases found : db.pools.get other with
        | none => simp [found]
        | some home =>
          simp only [Option.bind_some, found, Option.map_some]
          apply mine_other
          rintro rfl
          exact here pooled

variable (forward) in
theorem start_loop (waiting : List EventId) (uses : List TxChain.Address)
    (sampled : Sampled arith events pools waiting tables.samples tables.reserveSamples)
    (valued : Valued pools tables.states.get) :
    Loop arith events pools forward tables waiting (restOf (Pass.start tables uses)) := by
  constructor
  · unfold Buffered
    split
    · exact ⟨rfl, rfl⟩
    · exact ⟨rfl, rfl⟩
  · exact sampled
  · rfl
  · exact fun _ _ => rfl
  · exact fun _ absent => absurd absent List.not_mem_nil
  · exact valued

theorem get_putAll {Key Value : Type} [DecidableEq Key] (value : Key → Option Value)
    (pairs : List (Key × Value)) (agree : ∀ pair ∈ pairs, value pair.1 = some pair.2)
    (table : OrderedTable Key Value) (key : Key) : (table.putAll pairs).get key =
      if key ∈ pairs.map Prod.fst then value key else table.get key := by
  induction pairs generalizing table with
  | nil => rfl
  | cons pair rest ih =>
    have next := ih (fun other member => agree other (List.mem_cons_of_mem pair member))
      (table.put pair.1 pair.2)
    rw [get_put] at next
    refine next.trans ?_
    by_cases later : key ∈ rest.map Prod.fst
    · simp [later]
    · by_cases same : key = pair.1
      · subst same
        simp [later, agree pair List.mem_cons_self]
      · simp [later, same]

theorem finish_states (pass : Pass)
    (loop : Loop arith events pools forward tables [] (restOf pass)) (id : PoolId) :
    pass.finish.states.get id = pass.states id := by
  have stored : pass.tables.states = tables.states := loop.stored
  rw [Pass.finish, stored, get_putAll pass.states]
  · split
    · rfl
    · rename_i unwritten
      symm
      apply loop.clean id
      intro dirty
      obtain ⟨state, found⟩ := Option.isSome_iff_exists.mp (loop.dirty id dirty)
      have there : pass.states id = some state := found
      apply unwritten
      refine List.mem_map.mpr ⟨(id, state), List.mem_filterMap.mpr ⟨id, ?_, ?_⟩, rfl⟩
      · exact List.mem_dedup.mpr dirty
      · rw [there]
        rfl
  · intro pair member
    obtain ⟨other, -, made⟩ := List.mem_filterMap.mp member
    obtain ⟨state, found, rfl⟩ := Option.map_eq_some_iff.mp made
    exact found

theorem finish_sound (pass : Pass)
    (loop : Loop arith events pools forward tables [] (restOf pass)) (apart : ApartEvents events)
    (plain : PlainEvents arith pools events)
    (heads : ∀ id pool, pools.get id = some pool → (pass.states id).map headOf =
      (poolLog arith pool).history (poolRows events id)) :
    Sound arith pools events pass.finish := by
  refine ⟨apart, plain, loop.sampled, ?_, ?_⟩
  · intro id pool known v2
    rw [finish_states pass loop]
    exact loop.sound id pool known v2
  · intro id pool known
    rw [finish_states pass loop]
    exact heads id pool known

theorem poolRows_joined {before after : Events} {inserted : Delivered}
    (joined : after.entries = before.entries ++ inserted) (id : PoolId) :
    poolRows after id = poolRows before id ++
      (inserted.filter fun entry => entry.2.terms.poolId = some id).map fun entry => bare entry.2 := by
  rw [poolRows, joined, List.map_append, List.filter_append, List.filter_map (l := inserted)]
  rfl

theorem sampled_joined (db : Db Lp) (pooled : db.pools = pools) {before : Events}
    {inserted delivered : Delivered} (joined : db.events.entries = before.entries ++ inserted)
    (same : ∀ entry, entry ∈ delivered ↔ entry ∈ inserted)
    {samples : OrderedTable EventId Sample} {reserves : OrderedTable EventId ReserveSample}
    (sampled : Sampled arith before pools [] samples reserves) :
    Sampled arith db.events pools ((knownEvents db delivered).map Known.id) samples reserves := by
  have grown : ∀ id row, before.get id = some row → db.events.get id = some row := by
    intro id row found
    apply (get_some _ _ _).mpr
    rw [joined]
    exact List.mem_append_left _ ((get_some _ _ _).mp found)
  have old : ∀ id row poolId pool, db.events.get id = some row → row.terms.poolId = some poolId →
      pools.get poolId = some pool → id ∉ (knownEvents db delivered).map Known.id →
        before.get id = some row := by
    intro id row poolId pool found named known waits
    have member := (get_some _ _ _).mp found
    rw [joined] at member
    rcases List.mem_append.mp member with there | new
    · exact (get_some _ _ _).mpr there
    · apply absurd _ waits
      refine List.mem_map.mpr ⟨⟨id, row, poolId, pool⟩, ?_, rfl⟩
      exact (mem_known db delivered _).mpr ⟨(same _).mpr new, named, pooled ▸ known⟩
  constructor
  · intro entry member
    obtain ⟨row, found, rest⟩ := sampled.known entry member
    exact ⟨row, grown _ row found, rest⟩
  · intro id row poolId found named known priced ready
    obtain ⟨pool, there⟩ := Option.isSome_iff_exists.mp known
    exact sampled.sampled id row poolId (old id row poolId pool found named there ready) named known
      priced List.not_mem_nil
  · intro entry member
    obtain ⟨row, pool, found, rest⟩ := sampled.paired entry member
    exact ⟨row, pool, grown _ row found, rest⟩
  · intro id row poolId pool found named known v2 own ready
    exact sampled.reserved id row poolId pool (old id row poolId pool found named known ready) named
      known v2 own List.not_mem_nil

theorem deliver_sound (db : Db Lp) (pooled : db.pools = pools) {before : Events}
    (sound : Sound arith pools before tables) (inserted delivered : Delivered)
    (joined : db.events.entries = before.entries ++ inserted) (perm : delivered.Perm inserted)
    (apart : ApartEvents db.events) (plain : PlainEvents arith pools db.events)
    (harmless : ∀ entry ∈ inserted, ∀ id ∈ entry.2.terms.poolId, ∀ pool ∈ pools.get id,
      Harmless arith pool (isForward db delivered) (poolRows db.events id) (poolRows before id)
        (bare entry.2)) :
    Sound arith pools db.events (repriceEvents arith db tables delivered).tables := by
  let uses := anchorUses (knownEvents db delivered) (gasRows db (knownEvents db delivered))
  have inside : ∀ entry ∈ delivered, entry ∈ db.events.entries := by
    intro entry member
    rw [joined]
    exact List.mem_append_right _ (perm.mem_iff.mp member)
  have nodup : delivered.Nodup := by
    have whole := entries_nodup db.events
    rw [joined] at whole
    exact perm.nodup_iff.mpr (List.nodup_append'.mp whole).2.1
  have listed := known_listed db pooled delivered inside plain
  have start := sampled_joined db pooled joined (fun _ => perm.mem_iff) sound.sampled
  have loop := start_loop (isForward db delivered) _ uses start sound.valued
  apply finish_sound _ (loop_run _ _ listed loop) apart plain
  intro id pool known
  have mine_ := mine_known db delivered id pool (pooled ▸ known)
  have ordered := apart.sorted delivered nodup inside
  -- The pool's rows are those from before and the waiting ones.
  have parts : (poolRows before id ++ mine id (knownEvents db delivered)).Perm
      (poolRows db.events id) := by
    rw [poolRows_joined joined, mine_]
    apply List.Perm.append_left
    exact ((List.perm_insertionSort _ delivered).trans perm).filter _ |>.map _
  apply heads_run id pool known _ start (poolRows before id) _ _ (poolRows before id) listed loop
  · constructor
    · exact apart.rows id
    · intro row
      rw [← parts.mem_iff, List.mem_append]
    · apply parts.nodup_iff.mpr
      exact (apart.rows id).imp fun unlike same => unlike (congrArg _ same)
    · rw [mine_]
      exact List.pairwise_map.mpr (ordered.filter _)
    · exact fun row member => member
    · exact fun row member => .inl member
  · exact .inl (sound.heads id pool known)
  · intro row member
    rw [mine_] at member
    obtain ⟨entry, chosen, rfl⟩ := List.mem_map.mp member
    obtain ⟨there, named⟩ := List.mem_filter.mp chosen
    exact harmless entry (perm.mem_iff.mp ((mem_inPriceOrder _ _).mp there)) id
      (of_decide_eq_true named) pool known

theorem redeliver_sound (db : Db Lp) (pooled : db.pools = pools)
    (sound : Sound arith pools db.events tables) (delivered : Delivered)
    (inside : ∀ entry ∈ delivered, entry ∈ db.events.entries)
    (again : ∀ entry ∈ delivered, ∀ id ∈ entry.2.terms.poolId, ∀ pool ∈ pools.get id,
      pool.protocol = .v2 ∨
        (∃ other ∈ poolRows db.events id, EventRow.order entry.2 < EventRow.order other) ∨
          isForward db delivered = true ∨ Found arith pool (poolRows db.events id) entry.2) :
    Sound arith pools db.events (repriceEvents arith db tables delivered).tables := by
  let uses := anchorUses (knownEvents db delivered) (gasRows db (knownEvents db delivered))
  have listed := known_listed db pooled delivered inside sound.plain
  have loop := start_loop (isForward db delivered) [] uses sound.sampled sound.valued
  apply finish_sound _ (loop_run _ _ listed (loop.weaken _)) sound.apart sound.plain
  intro id pool known
  apply again_run id pool known sound.sampled (sound.apart.rows id) _ _ listed loop
  · exact sound.heads id pool known
  · intro event member _
    obtain ⟨there, named, found⟩ := (mem_known db delivered event).mp member
    exact again _ there event.poolId named event.pool (pooled ▸ found)

end RhPools.HeadDeliveries
