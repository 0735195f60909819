import RhPools.PositionReplay

/-! The identities that a derivation gives to episodes. An event opens one episode at most, under
the identity that is kept for its place or under the next ordinal, and an episode keeps the
identity it was opened with. -/

namespace RhPools.EpisodeOpenings
open TxChain EventWords MarketTables PositionEvents PositionReplay

structure Tag where
  id : String
  ordinal : Int
  spot : Spot
  deriving DecidableEq, Repr

def tagOf (episode : Episode) : Tag := ⟨episode.id, episode.ordinal, episode.openedSpot⟩

def rowTag (row : EpisodeRow) : Tag := ⟨row.id, row.ordinal, row.openedSpot⟩

def nameOf (key : String) (ordinal : Int) : String := key ++ ":" ++ toString ordinal

def issue (ids : Ids) (state : Position) (spot : Spot) : Int × Tag :=
  match ids spot with
  | some (id, ordinal) => (state.episodeOrdinal, ⟨id, ordinal, spot⟩)
  | none => (state.episodeOrdinal + 1,
      ⟨nameOf state.key (state.episodeOrdinal + 1), state.episodeOrdinal + 1, spot⟩)

def Shows (after : Position × List Saved) (episode : Episode) : Prop :=
  after.1.activeEpisode = some episode ∨ Saved.episode episode ∈ after.2

def Had (before : Position) (tag : Tag) : Prop := ∃ old ∈ before.activeEpisode, tagOf old = tag

structure Kept (before : Position) (after : Position × List Saved) : Prop where
  key : after.1.key = before.key
  ordinal : after.1.episodeOrdinal = before.episodeOrdinal
  shown : ∀ episode, Shows after episode → Had before (tagOf episode)

structure Opened (ids : Ids) (spot : Spot) (before : Position) (after : Position × List Saved) :
    Prop where
  key : after.1.key = before.key
  ordinal : after.1.episodeOrdinal = (issue ids before spot).1
  shown : ∀ episode, Shows after episode →
    Had before (tagOf episode) ∨ tagOf episode = (issue ids before spot).2

variable {ids : Ids} {spot : Spot} {before middle after : Position} {first second : List Saved}

theorem shows_append (episode : Episode) (shown : Shows (after, first ++ second) episode) :
    Saved.episode episode ∈ first ∨ Shows (after, second) episode := by
  rcases shown with active | saved
  · exact Or.inr (Or.inl active)
  · rcases List.mem_append.mp saved with early | late
    · exact Or.inl early
    · exact Or.inr (Or.inr late)

theorem Kept.had {tag : Tag} (early : Kept before (middle, first)) (had : Had middle tag) :
    Had before tag := by
  obtain ⟨old, active, rfl⟩ := had
  exact early.shown old (Or.inl active)

theorem Kept.trans (early : Kept before (middle, first)) (late : Kept middle (after, second)) :
    Kept before (after, first ++ second) where
  key := late.key.trans early.key
  ordinal := late.ordinal.trans early.ordinal
  shown := by
    intro episode shown
    rcases shows_append episode shown with saved | shown
    · exact early.shown episode (Or.inr saved)
    · exact early.had (late.shown episode shown)

theorem Kept.issue (early : Kept before (middle, first)) :
    issue ids middle spot = issue ids before spot := by
  unfold EpisodeOpenings.issue
  rw [early.key, early.ordinal]

theorem Kept.opened (early : Kept before (middle, first))
    (late : Opened ids spot middle (after, second)) :
    Opened ids spot before (after, first ++ second) where
  key := late.key.trans early.key
  ordinal := by rw [late.ordinal, early.issue]
  shown := by
    intro episode shown
    rcases shows_append episode shown with saved | shown
    · exact Or.inl (early.shown episode (Or.inr saved))
    · rcases late.shown episode shown with had | new
      · exact Or.inl (early.had had)
      · exact Or.inr (new.trans (congrArg Prod.snd early.issue))

theorem Opened.kept (early : Opened ids spot before (middle, first))
    (late : Kept middle (after, second)) :
    Opened ids spot before (after, first ++ second) where
  key := late.key.trans early.key
  ordinal := late.ordinal.trans early.ordinal
  shown := by
    intro episode shown
    rcases shows_append episode shown with saved | shown
    · exact early.shown episode (Or.inr saved)
    · obtain ⟨old, active, same⟩ := late.shown episode shown
      rw [← same]
      exact early.shown old (Or.inl active)

def Quiet (before after : Position) : Prop :=
  after.key = before.key ∧ after.episodeOrdinal = before.episodeOrdinal ∧
    after.activeEpisode = before.activeEpisode

theorem Quiet.kept (quiet : Quiet before after)
    (plain : ∀ episode, Saved.episode episode ∉ first) : Kept before (after, first) where
  key := quiet.1
  ordinal := quiet.2.1
  shown := by
    rintro episode (active | saved)
    · exact ⟨episode, quiet.2.2 ▸ active, rfl⟩
    · exact absurd saved (plain episode)

theorem Kept.changed (old : Episode) (active : before.activeEpisode = some old)
    (key : after.key = before.key) (ordinal : after.episodeOrdinal = before.episodeOrdinal)
    (same : ∀ episode, Shows (after, first) episode → tagOf episode = tagOf old) :
    Kept before (after, first) :=
  ⟨key, ordinal, fun episode shown => ⟨old, active, (same episode shown).symm⟩⟩

theorem newEpisode_opened (ids : Ids) (state : Position) (event : Event)
    (complete transferred : Bool) (change : Episode → Episode)
    (same : ∀ episode, tagOf (change episode) = tagOf episode) (after : Position)
    (key : after.key = state.key)
    (ordinal : after.episodeOrdinal =
      (newEpisode ids state event complete transferred).1.episodeOrdinal)
    (active : after.activeEpisode =
      some (change (newEpisode ids state event complete transferred).2))
    (saved : List Saved) (plain : ∀ episode, Saved.episode episode ∉ saved) :
    Opened ids event.spot state (after, saved) := by
  have issued : (newEpisode ids state event complete transferred).1.episodeOrdinal =
        (issue ids state event.spot).1 ∧
      tagOf (newEpisode ids state event complete transferred).2 =
        (issue ids state event.spot).2 := by
    unfold newEpisode issue
    cases ids event.spot with
    | none => exact ⟨rfl, rfl⟩
    | some identity => exact ⟨rfl, rfl⟩
  refine ⟨key, ordinal.trans issued.1, ?_⟩
  rintro episode (shown | member)
  · rw [active] at shown
    cases shown
    exact Or.inr ((same _).trans issued.2)
  · exact absurd member (plain episode)

theorem readColumns_quiet (state : Position) (event : Event) :
    Quiet state (readColumns state event) :=
  ⟨rfl, rfl, rfl⟩

theorem tagOf_identify (owner : Address) (basis : String) (episode : Episode) :
    tagOf (Episode.identify owner basis episode) = tagOf episode := by
  unfold Episode.identify
  split
  · rfl
  · rfl

theorem Kept.mapped (change : Episode → Episode) (same : ∀ episode, tagOf (change episode) =
    tagOf episode) (key : after.key = before.key)
    (ordinal : after.episodeOrdinal = before.episodeOrdinal)
    (active : after.activeEpisode = before.activeEpisode.map change)
    (plain : ∀ episode, Saved.episode episode ∉ first) : Kept before (after, first) where
  key := key
  ordinal := ordinal
  shown := by
    rintro episode (shown | saved)
    · rw [active] at shown
      obtain ⟨old, here, rfl⟩ := Option.map_eq_some_iff.mp shown
      exact ⟨old, here, (same old).symm⟩
    · exact absurd saved (plain episode)

theorem updateIdentity_kept (state : Position) (event : Event) :
    Kept state (updateIdentity state event) := by
  unfold updateIdentity
  dsimp only
  split
  · exact Quiet.kept ⟨rfl, rfl, rfl⟩ (by simp)
  · next owner _ =>
      split
      · split
        · exact .mapped _ (tagOf_identify owner _) rfl rfl rfl (by simp)
        · exact .mapped _ (tagOf_identify owner _) rfl rfl rfl (by simp)
      · split
        · exact .mapped Episode.conflict (fun _ => rfl) rfl rfl rfl (by simp)
        · exact Quiet.kept ⟨rfl, rfl, rfl⟩ (by simp)

theorem endOwnership_kept (state : Position) (event : Event) :
    Kept state (endOwnership state event) := by
  unfold endOwnership
  split
  · split
    · exact Quiet.kept ⟨rfl, rfl, rfl⟩ (by simp)
    · exact Quiet.kept ⟨rfl, rfl, rfl⟩ (by simp)
  · exact Quiet.kept ⟨rfl, rfl, rfl⟩ (by simp)

theorem Kept.ended (old closed : Episode) (active : before.activeEpisode = some old)
    (same : tagOf closed = tagOf old) (key : after.key = before.key)
    (ordinal : after.episodeOrdinal = before.episodeOrdinal) (gone : after.activeEpisode = none) :
    Kept before (after, [.episode closed]) := by
  apply Kept.changed old active key ordinal
  rintro episode (shown | saved)
  · rw [gone] at shown
    cases shown
  · cases List.mem_singleton.mp saved
    exact same

theorem endEpisode_kept (state : Position) (event : Event) :
    Kept state (endEpisode state event) := by
  unfold endEpisode
  split
  · next episode active =>
      split
      · exact .ended episode _ active rfl rfl rfl rfl
      · split
        · split
          · exact .ended episode _ active rfl rfl rfl rfl
          · exact .ended episode _ active rfl rfl rfl rfl
        · exact Quiet.kept ⟨rfl, rfl, rfl⟩ (by simp)
  · exact Quiet.kept ⟨rfl, rfl, rfl⟩ (by simp)

theorem acquire_opens (ids : Ids) (state : Position) (event : Event) (target : Address)
    (regular : Bool) : Kept state (acquire ids state event target regular) ∨
      Opened ids event.spot state (acquire ids state event target regular) := by
  unfold acquire
  extract_lets sourceZero interval owned
  have quiet : Quiet state owned := ⟨rfl, rfl, rfl⟩
  split
  · right
    have opened := newEpisode_opened ids owned event owned.historyComplete true id (fun _ => rfl)
      { (newEpisode ids owned event owned.historyComplete true).1 with
        activeEpisode := some (newEpisode ids owned event owned.historyComplete true).2
        settled := false } rfl rfl rfl [.ownership interval] (by simp)
    exact (quiet.kept (by simp) : Kept state (owned, [])).opened opened
  · exact Or.inl (quiet.kept (by simp))

theorem processTransfer_opens (ids : Ids) (state : Position) (event : Event) :
    Kept state (processTransfer ids state event) ∨
      Opened ids event.spot state (processTransfer ids state event) := by
  have closed : Kept state ((endEpisode (endOwnership state event).1 event).1,
      (endOwnership state event).2 ++ (endEpisode (endOwnership state event).1 event).2) :=
    (endOwnership_kept state event).trans (endEpisode_kept _ event)
  unfold processTransfer
  rcases disowning : endOwnership state event with ⟨disowned, ended⟩
  rw [disowning] at closed
  dsimp -zeta only at closed ⊢
  rcases closing : endEpisode disowned event with ⟨left, finished⟩
  rw [closing] at closed
  dsimp -zeta only at closed ⊢
  -- what follows the end of the episode changes neither key, ordinal nor active episode
  have still (after : Position) (quiet : Quiet left after) : Kept state (after, ended ++ finished) := by
    have whole := closed.trans (quiet.kept (by simp) : Kept left (after, []))
    rwa [List.append_nil] at whole
  extract_lets moved
  split
  · next target _ =>
      extract_lets named
      have named : Kept state (named, ended ++ finished) := still _ ⟨rfl, rfl, rfl⟩
      split
      · exact Or.inl (still _ ⟨rfl, rfl, rfl⟩)
      · split
        · exact Or.inl (still _ ⟨rfl, rfl, rfl⟩)
        · rcases acquire_opens ids _ event target (regularTransfer state event) with kept | opened
          · exact Or.inl (named.trans kept)
          · exact Or.inr (named.opened opened)
  · split
    · exact Or.inl (still _ ⟨rfl, rfl, rfl⟩)
    · exact Or.inl (still _ ⟨rfl, rfl, rfl⟩)

theorem establish_kept (state : Position) (event : Event) :
    Kept state (establish state event) := by
  have read : Quiet state (readLiquidity state event) := by
    unfold readLiquidity
    split
    · exact ⟨rfl, rfl, rfl⟩
    · split
      · exact ⟨rfl, rfl, rfl⟩
      · exact ⟨rfl, rfl, rfl⟩
  unfold establish
  dsimp only
  split
  · apply Quiet.kept
    · split
      · split
        · exact read
        · exact read
      · split
        · exact read
        · exact read
    · simp
  · exact read.kept (by simp)

theorem tagOf_allocate (episode : Episode) (protocol : ProtocolName) :
    tagOf (episode.allocate protocol) = tagOf episode := by
  unfold Episode.allocate
  extract_lets amounts
  split
  · rfl
  · rfl

theorem leaveEpisode_kept (state : Position) (event : Event) :
    Kept state ((leaveEpisode state event).1, (leaveEpisode state event).2.1) := by
  unfold leaveEpisode
  split
  · next old active =>
      split
      · refine Kept.changed old active ?_ ?_ ?_
        · rfl
        · rfl
        · rintro episode (shown | saved)
          · cases shown
          · cases saved
      · exact .ended old _ active rfl rfl rfl rfl
  · exact Quiet.kept ⟨rfl, rfl, rfl⟩ (by simp)

theorem enterEpisode_opens (ids : Ids) (seen state : Position) (event : Event) :
    Kept state (enterEpisode ids seen state event) ∨
      Opened ids event.spot state (enterEpisode ids seen state event) := by
  unfold enterEpisode
  split
  · right
    have leave := leaveEpisode_kept state event
    rcases leaving : leaveEpisode state event with ⟨left, saved, reentered⟩
    rw [leaving] at leave
    dsimp -zeta only at leave ⊢
    extract_lets ambiguous
    have unsettled : Kept left ({ left with settled := false }, []) :=
      Quiet.kept ⟨rfl, rfl, rfl⟩ (by simp)
    have opened (complete : Bool) (change : Episode → Episode)
        (same : ∀ episode, tagOf (change episode) = tagOf episode) :
        Opened ids event.spot { left with settled := false }
          ({ (newEpisode ids { left with settled := false } event complete false).1 with
            activeEpisode := some (change
              (newEpisode ids { left with settled := false } event complete false).2) }, []) :=
      newEpisode_opened ids _ event complete false change same _ (by rfl) (by rfl) (by rfl) []
        (by simp)
    have marked : ∀ episode, tagOf (if ambiguous then { episode with
        ambiguousReentry := true, feesComplete := false, status := .ambiguousReentry }
        else episode) = tagOf episode := by
      intro episode
      split
      · rfl
      · rfl
    have whole := (leave.trans unsettled).opened
      (opened (zeroProven seen event && left.historyComplete) _ marked)
    rwa [List.append_nil, List.append_nil] at whole
  · split
    · right
      exact newEpisode_opened ids state event false false
        (fun episode => { episode with status := .partialHistory }) (fun _ => rfl)
        { (newEpisode ids state event false false).1 with
          activeEpisode := some { (newEpisode ids state event false false).2 with
            status := .partialHistory } } rfl rfl rfl [] (by simp)
    · exact Or.inl (Quiet.kept ⟨rfl, rfl, rfl⟩ (by simp))

theorem enterEpisode_transfer (ids : Ids) (seen state : Position) (event : Event)
    (transfer : event.kind = .transfer) : enterEpisode ids seen state event = (state, []) := by
  unfold enterEpisode begins
  simp [transfer]

theorem closeEpisode_kept (state : Position) (event : Event) (protocol : ProtocolName) :
    Kept state (closeEpisode state event protocol) := by
  unfold closeEpisode
  split
  · exact Quiet.kept ⟨rfl, rfl, rfl⟩ (by simp)
  · next episode active =>
      have still (change : Episode) (same : tagOf change = tagOf episode) :
          Kept state ({ state with activeEpisode := some change }, []) := by
        refine Kept.changed episode active ?_ ?_ ?_
        · rfl
        · rfl
        · rintro shown (here | saved)
          · cases here
            exact same
          · cases saved
      split
      · split
        · exact still _ rfl
        · exact Quiet.kept ⟨rfl, rfl, rfl⟩ (by simp)
      · split
        · split
          · exact .ended episode _ active (tagOf_allocate _ protocol) rfl rfl rfl
          · exact still _ rfl
        · split
          · exact still _ rfl
          · exact Quiet.kept ⟨rfl, rfl, rfl⟩ (by simp)

theorem updateClaimState_quiet (state : Position) (event : Event) (effect : Effect) :
    Quiet state (updateClaimState state event effect) := by
  have moved : Quiet state (movePending state event effect) := by
    unfold movePending
    split
    · split
      · split
        · exact ⟨rfl, rfl, rfl⟩
        · exact ⟨rfl, rfl, rfl⟩
      · exact ⟨rfl, rfl, rfl⟩
    · split
      · split
        · exact ⟨rfl, rfl, rfl⟩
        · exact ⟨rfl, rfl, rfl⟩
      · exact ⟨rfl, rfl, rfl⟩
    · exact ⟨rfl, rfl, rfl⟩
  have read (other : Position) (quiet : Quiet state other) : Quiet state (readOwed other event) := by
    unfold readOwed
    split
    · exact quiet
    · split
      · exact quiet
      · exact quiet
  unfold updateClaimState
  split
  · exact read _ moved
  · exact read _ ⟨rfl, rfl, rfl⟩

theorem account_kept (state : Position) (event : Event) (pool : Decimals)
    (protocol : ProtocolName) (transfers : Bool) :
    Kept state (account state event pool protocol transfers) := by
  unfold account
  extract_lets effect applied
  have apply : Kept state (applied, []) :=
    .mapped (fun episode => episode.apply effect event) (fun _ => rfl) rfl rfl rfl (by simp)
  have claims : Kept applied (updateClaimState applied event effect, []) :=
    (updateClaimState_quiet applied event effect).kept (by simp)
  have closed := (apply.trans claims).trans
    (closeEpisode_kept (updateClaimState applied event effect) event protocol)
  have row (last : Position) (effect : EffectRow) (spot : Spot) (id : EventId) (time : Int) :
      Kept last ({ last with lastSpot := spot, lastId := id, lastTimestamp := time },
        [.effect effect]) :=
    Quiet.kept ⟨rfl, rfl, rfl⟩ (by simp)
  exact closed.trans (row _ _ _ _ _)

def Decoded (event : Event) : Prop :=
  event.protocol.isSome ∧ (event.protocol = some .nft → event.kind = .transfer)

theorem transfer_of_isTransfer (state : Position) (event : Event) (decoded : Decoded event)
    (transfers : isTransfer state event = true) : event.kind = .transfer := by
  obtain ⟨protocol, named⟩ := Option.isSome_iff_exists.mp decoded.1
  unfold isTransfer at transfers
  rw [Bool.or_eq_true, decide_eq_true_eq, decide_eq_true_eq, named, Option.some_or,
    Option.getD_some] at transfers
  rcases transfers with kind | nft
  · exact kind
  · exact decoded.2 (by rw [named, nft])

theorem enter_opens (ids : Ids) (state : Position) (event : Event) (decoded : Decoded event) :
    Kept state (enter ids state event) ∨ Opened ids event.spot state (enter ids state event) := by
  have read : Kept state (readColumns state event, []) :=
    (readColumns_quiet state event).kept (by simp)
  have complete (identified : Position) : Kept identified (establish identified event) :=
    establish_kept identified event
  cases transfers : isTransfer state event with
  | true =>
    have kind := transfer_of_isTransfer state event decoded transfers
    have last (identified established : Position) :
        Kept established (enterEpisode ids identified established event) := by
      rw [enterEpisode_transfer ids identified established event kind]
      exact Quiet.kept ⟨rfl, rfl, rfl⟩ (by simp)
    unfold enter
    rw [transfers]
    rcases processTransfer_opens ids (readColumns state event) event with kept | opened
    · exact Or.inl (((read.trans kept).trans (complete _)).trans (last _ _))
    · exact Or.inr (((read.opened opened).kept (complete _)).kept (last _ _))
  | false =>
    have established := (read.trans (updateIdentity_kept (readColumns state event) event)).trans
      (complete _)
    unfold enter
    rw [transfers]
    rcases enterEpisode_opens ids (updateIdentity (readColumns state event) event).1
      (establish (updateIdentity (readColumns state event) event).1 event).1 event with
      kept | opened
    · exact Or.inl (established.trans kept)
    · exact Or.inr (established.opened opened)

theorem processEvent_opens (ids : Ids) (pool : Decimals) (state : Position) (event : Event)
    (decoded : Decoded event) : Kept state (processEvent ids pool state event) ∨
      Opened ids event.spot state (processEvent ids pool state event) := by
  have rest := account_kept (enter ids state event).1 event pool
    ((event.protocol.or state.protocol).getD .unknown) (isTransfer state event)
  rcases enter_opens ids state event decoded with kept | opened
  · exact Or.inl (kept.trans rest)
  · exact Or.inr (opened.kept rest)

/-- The identities of the episodes that some events open: each is kept for its place or numbered
past the ones before. -/
structure Issues (ids : Ids) (key : String) (spots : List Spot) (low high : Int)
    (issued : List Tag) : Prop where
  rises : low ≤ high
  placed : ∀ tag ∈ issued, tag.spot ∈ spots
  origin : ∀ tag ∈ issued, ids tag.spot = some (tag.id, tag.ordinal) ∨
    (ids tag.spot = none ∧ tag.id = nameOf key tag.ordinal ∧
      low < tag.ordinal ∧ tag.ordinal ≤ high)
  place : ∀ tag ∈ issued, ∀ other ∈ issued, tag.spot = other.spot → tag = other
  number : ∀ tag ∈ issued, ∀ other ∈ issued, ids tag.spot = none → ids other.spot = none →
    tag.ordinal = other.ordinal → tag = other

theorem Issues.later {key : String} {spots : List Spot} {low high : Int} {issued : List Tag}
    (issues : Issues ids key spots low high issued) :
    Issues ids key (spot :: spots) low high issued :=
  { issues with placed := fun tag member => List.mem_cons_of_mem spot (issues.placed tag member) }

theorem issue_ordinal (ids : Ids) (state : Position) (spot : Spot) :
    state.episodeOrdinal ≤ (issue ids state spot).1 := by
  unfold issue
  cases ids spot with
  | none => exact le_of_lt (Int.lt_succ _)
  | some identity => exact le_refl _

theorem issue_spot (ids : Ids) (state : Position) (spot : Spot) :
    (issue ids state spot).2.spot = spot := by
  unfold issue
  cases ids spot with
  | none => rfl
  | some identity => rfl

theorem issue_kept (ids : Ids) (state : Position) (spot : Spot) (id : String) (ordinal : Int)
    (kept : ids spot = some (id, ordinal)) :
    issue ids state spot = (state.episodeOrdinal, ⟨id, ordinal, spot⟩) := by
  unfold issue
  rw [kept]

theorem issue_fresh (ids : Ids) (state : Position) (spot : Spot) (fresh : ids spot = none) :
    issue ids state spot = (state.episodeOrdinal + 1,
      ⟨nameOf state.key (state.episodeOrdinal + 1), state.episodeOrdinal + 1, spot⟩) := by
  unfold issue
  rw [fresh]

theorem Issues.opened (state : Position) {spots : List Spot} {high : Int} {issued : List Tag}
    (issues : Issues ids state.key spots (issue ids state spot).1 high issued)
    (apart : spot ∉ spots) :
    Issues ids state.key (spot :: spots) state.episodeOrdinal high
      ((issue ids state spot).2 :: issued) := by
  have rises := issue_ordinal ids state spot
  have here := issue_spot ids state spot
  have elsewhere : ∀ tag ∈ issued, tag.spot ≠ spot :=
    fun tag member same => apart (same ▸ issues.placed tag member)
  -- a new ordinal is below those that are given out later
  have below : ∀ tag ∈ issued, ids spot = none → ids tag.spot = none →
      (issue ids state spot).2.ordinal ≠ tag.ordinal := by
    intro tag member fresh new
    rcases issues.origin tag member with kept | ⟨-, -, above, -⟩
    · rw [new] at kept
      cases kept
    · rw [issue_fresh ids state spot fresh] at above ⊢
      exact ne_of_lt above
  constructor
  · exact le_trans rises issues.rises
  · intro tag member
    rcases List.mem_cons.mp member with rfl | inside
    · rw [here]
      exact List.mem_cons_self
    · exact List.mem_cons_of_mem spot (issues.placed tag inside)
  · intro tag member
    rcases List.mem_cons.mp member with rfl | inside
    · rw [here]
      cases found : ids spot with
      | none =>
        have high := issues.rises
        rw [issue_fresh ids state spot found] at high ⊢
        exact Or.inr ⟨rfl, rfl, Int.lt_succ _, high⟩
      | some identity =>
        rw [issue_kept ids state spot identity.1 identity.2 found]
        exact Or.inl rfl
    · rcases issues.origin tag inside with kept | ⟨fresh, named, above, under⟩
      · exact Or.inl kept
      · exact Or.inr ⟨fresh, named, lt_of_le_of_lt rises above, under⟩
  · intro tag member other among same
    rcases List.mem_cons.mp member with rfl | inside
    · rcases List.mem_cons.mp among with rfl | others
      · rfl
      · exact absurd (same.symm.trans here) (elsewhere other others)
    · rcases List.mem_cons.mp among with rfl | others
      · exact absurd (same.trans here) (elsewhere tag inside)
      · exact issues.place tag inside other others same
  · intro tag member other among new fresh same
    rcases List.mem_cons.mp member with rfl | inside
    · rcases List.mem_cons.mp among with rfl | others
      · rfl
      · rw [here] at new
        exact absurd same (below other others new fresh)
    · rcases List.mem_cons.mp among with rfl | others
      · rw [here] at fresh
        exact absurd same.symm (below tag inside fresh new)
      · exact issues.number tag inside other others new fresh same

theorem preparedEvents_decoded (seen events : List Event)
    (decoded : ∀ event ∈ events, Decoded event) :
    ∀ event ∈ preparedEvents seen events, Decoded event := by
  intro event member
  obtain ⟨original, among, same⟩ := mem_preparedEvents seen events event member
  rw [same]
  exact decoded original among

theorem processEvents_issues (ids : Ids) (pools : PoolId → Decimals) (state : Position)
    (events : List Event) (decoded : ∀ event ∈ events, Decoded event)
    (distinct : (events.map Event.spot).Nodup) :
    (processEvents ids pools state events).1.key = state.key ∧
    ∃ issued, Issues ids state.key (events.map Event.spot) state.episodeOrdinal
        (processEvents ids pools state events).1.episodeOrdinal issued ∧
      ∀ episode, Shows (processEvents ids pools state events) episode →
        Had state (tagOf episode) ∨ tagOf episode ∈ issued := by
  induction events generalizing state with
  | nil =>
    refine ⟨rfl, [], ⟨le_refl _, ?_, ?_, ?_, ?_⟩, ?_⟩
    · simp
    · simp
    · simp
    · simp
    · rintro episode (active | saved)
      · exact Or.inl ⟨episode, active, rfl⟩
      · cases saved
  | cons event rest ih =>
    obtain ⟨apart, distinct⟩ := List.nodup_cons.mp distinct
    have opens := processEvent_opens ids (poolOf pools state event) state event
      (decoded event List.mem_cons_self)
    obtain ⟨key, issued, issues, shown⟩ := ih
      (processEvent ids (poolOf pools state event) state event).1
      (fun later member => decoded later (List.mem_cons_of_mem event member)) distinct
    have split (episode : Episode)
        (shows : Shows (processEvents ids pools state (event :: rest)) episode) :
        Saved.episode episode ∈ (processEvent ids (poolOf pools state event) state event).2 ∨
          Shows (processEvents ids pools
            (processEvent ids (poolOf pools state event) state event).1 rest) episode :=
      shows_append episode shows
    rcases opens with kept | opened
    · refine ⟨key.trans kept.key, issued, ?_, ?_⟩
      · rw [kept.key, kept.ordinal] at issues
        exact issues.later
      · intro episode shows
        rcases split episode shows with saved | later
        · exact Or.inl (kept.shown episode (Or.inr saved))
        · rcases shown episode later with had | inside
          · exact Or.inl (kept.had had)
          · exact Or.inr inside
    · refine ⟨key.trans opened.key, (issue ids state event.spot).2 :: issued, ?_, ?_⟩
      · rw [opened.key, opened.ordinal] at issues
        exact issues.opened state apart
      · have first (other : Episode)
            (shows : Shows (processEvent ids (poolOf pools state event) state event) other) :
            Had state (tagOf other) ∨ tagOf other ∈ (issue ids state event.spot).2 :: issued := by
          rcases opened.shown other shows with had | new
          · exact Or.inl had
          · exact Or.inr (new ▸ List.mem_cons_self)
        intro episode shows
        rcases split episode shows with saved | later
        · exact first episode (Or.inr saved)
        · rcases shown episode later with ⟨old, active, same⟩ | inside
          · rw [← same]
            exact first old (Or.inl active)
          · exact Or.inr (List.mem_cons_of_mem _ inside)

theorem derive_issues (ids : Ids) (pools : PoolId → Decimals) (state : Position)
    (events : List Event) (decoded : ∀ event ∈ events, Decoded event)
    (distinct : (events.map Event.spot).Nodup) :
    (derive ids pools state events).1.key = state.key ∧
    ∃ issued, Issues ids state.key (events.map Event.spot) state.episodeOrdinal
        (derive ids pools state events).1.episodeOrdinal issued ∧
      ∀ episode, Shows (derive ids pools state events) episode →
        Had state (tagOf episode) ∨ tagOf episode ∈ issued := by
  have spots := preparedEvents_spots [] events
  have whole := processEvents_issues ids pools state (preparedEvents [] events)
    (preparedEvents_decoded [] events decoded) (by rw [spots]; exact distinct)
  rw [spots] at whole
  obtain ⟨key, issued, issues, shown⟩ := whole
  refine ⟨key, issued, issues, ?_⟩
  intro episode shows
  apply shown
  rcases shows with active | saved
  · exact Or.inl active
  · rcases List.mem_append.mp saved with early | last
    · exact Or.inr early
    · obtain ⟨other, active, same⟩ := List.mem_map.mp last
      cases same
      exact Or.inl (Option.mem_toList.mp active)

end RhPools.EpisodeOpenings
