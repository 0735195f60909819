import RhPools.SelectionLanes

/-! The liquidity curve of a V3 or V4 selection. Its words are read at one block and
shown for later ones as long as three marks say that no liquidity changed since. The
words and their ticks are written before the head is confirmed, the marks after it, so
the curve is the chain's as long as the head does not fall back behind a read across a
change of liquidity. -/

namespace RhPools.CurveMarks
open GuardedRuns OrderedTables SelectionLanes

variable {chain : Chain} {selection : Selection}

def Initialized (chain : Chain) (block : Nat) (tick : Int) : Prop :=
  ∃ (word : Int) (bit : Nat), bit < 256 ∧ tick = (word * 256 + bit) * chain.spacing ∧
    (chain.bitmap block word).testBit bit = true

/-- The map has the initialized ticks of the words, with their net liquidity. -/
def CurveExact (chain : Chain) (block : Nat) (words : List Int) (tickNet : Int → Option Int) : Prop :=
  ∀ tick net, tickNet tick = some net ↔
    wordOf chain.spacing tick ∈ words ∧ Initialized chain block tick ∧ net = chain.net block tick

def Quiet (chain : Chain) (first : Nat) (last : Int) : Prop :=
  ∀ block, first < block → (block : Int) ≤ last →
    ∀ log ∈ chain.logs block, log.body.changesShape = false

/-- An advance does not read a head that a change of liquidity separates from a later
block at which the curve was already read. -/
def headKeeps (chain : Chain) (world : World) : Action chain → Prop
  | .advance head _ _ => world.selection.cursor ≤ head →
      Quiet chain head world.selection.curveReadBlock
  | _ => True

theorem wordOf_tick {spacing : Int} (positive : 0 < spacing) (word : Int) (bit : Nat)
    (inside : bit < 256) : wordOf spacing ((word * 256 + bit) * spacing) = word := by
  rw [wordOf, Int.mul_ediv_cancel _ (ne_of_gt positive)]
  omega

theorem mem_ticksOf (chain : Chain) (block : Nat) (words : List Int) (tick : Int) :
    tick ∈ ticksOf chain block words ↔ ∃ word ∈ words, ∃ bit : Nat, bit < 256 ∧
      (chain.bitmap block word).testBit bit = true ∧ tick = (word * 256 + bit) * chain.spacing := by
  constructor
  · intro member
    obtain ⟨word, inside, found⟩ := List.mem_flatMap.mp member
    obtain ⟨bit, set, rfl⟩ := List.mem_map.mp found
    obtain ⟨bound, set⟩ := List.mem_filter.mp set
    exact ⟨word, inside, bit, List.mem_range.mp bound, set, rfl⟩
  · rintro ⟨word, inside, bit, bound, set, rfl⟩
    refine List.mem_flatMap.mpr ⟨word, inside, List.mem_map.mpr ⟨bit, ?_, rfl⟩⟩
    exact List.mem_filter.mpr ⟨List.mem_range.mpr bound, set⟩

theorem quiet_same {first last : Nat} (order : first ≤ last) (quiet : Quiet chain first last) :
    chain.bitmap last = chain.bitmap first ∧ chain.net last = chain.net first := by
  induction last, order using Nat.le_induction with
  | base => exact ⟨rfl, rfl⟩
  | succ last order ih =>
    obtain ⟨bitmap, net⟩ := ih fun block after upTo => quiet block after (by omega)
    obtain ⟨bitmap', net'⟩ := chain.unshaped last fun log member =>
      quiet (last + 1) (by omega) le_rfl log member
    exact ⟨bitmap'.trans bitmap, net'.trans net⟩

theorem CurveExact.across {first last : Nat} {words : List Int} {tickNet : Int → Option Int}
    (order : first ≤ last) (quiet : Quiet chain first last) :
    CurveExact chain first words tickNet ↔ CurveExact chain last words tickNet := by
  obtain ⟨bitmap, net⟩ := quiet_same order quiet
  unfold CurveExact Initialized
  rw [bitmap, net]

/-- What the marks of a seeded curve say: it was read at or after its state block, and
the blocks from there to the verified mark are quiet. -/
structure Marked (chain : Chain) (selection : Selection) (state : Nat) : Prop where
  held : selection.curveStateBlock = some state
  confirmed : state ≤ selection.cursor
  read : state ≤ selection.curveReadBlock
  exact_ : CurveExact chain selection.curveReadBlock selection.curveWords selection.tickNet
  quiet : ∀ verified, selection.curveVerifiedThroughBlock = some verified →
    Quiet chain state verified

theorem Marked.at_head {state head : Nat} (marked : Marked chain selection state)
    (ahead : Quiet chain head selection.curveReadBlock)
    (reaches : state = head ∨
      ∃ verified, selection.curveVerifiedThroughBlock = some verified ∧ (head : Int) ≤ verified) :
    CurveExact chain head selection.curveWords selection.tickNet := by
  rcases Nat.le_total head selection.curveReadBlock with before | after
  · exact (CurveExact.across before ahead).mpr marked.exact_
  · refine (CurveExact.across after ?_).mp marked.exact_
    intro block later upTo
    have read := marked.read
    rcases reaches with rfl | ⟨verified, mark, inside⟩
    · omega
    · exact marked.quiet verified mark block (by omega) (by omega)

theorem orMark_quiet {state : Nat} (verified : Option Int)
    (quiet : ∀ mark, verified = some mark → Quiet chain state mark) (other : Int)
    (below : other ≤ state) : Quiet chain state (orMark verified other) := by
  unfold orMark
  cases kept : verified.filter (· ≠ 0) with
  | none =>
    intro block after upTo
    rw [Option.getD_none] at upTo
    omega
  | some mark => exact quiet mark (Option.eq_some_of_filter_eq_some kept)

theorem Quiet.below {state : Nat} {first last : Int} (quiet : Quiet chain state last)
    (order : first ≤ last) : Quiet chain state first :=
  fun block after upTo => quiet block after (le_trans upTo order)

theorem wordRange_ne_nil {first last : Int} (order : first ≤ last) : wordRange first last ≠ [] := by
  intro empty
  have length := congrArg List.length empty
  rw [wordRange, List.length_map, List.length_range, List.length_nil] at length
  omega

theorem viewportWords_ne_nil {spacing : Int} (positive : 0 < spacing) (tick : Int)
    (positions : List (Int × Int)) : viewportWords spacing tick positions ≠ [] := by
  have positive_ : ¬spacing ≤ 0 := by omega
  unfold viewportWords MAX_BITMAP_WORDS
  rw [if_neg positive_]
  simp only
  split
  · exact wordRange_ne_nil (by omega)
  split
  · refine wordRange_ne_nil (le_trans (min_le_left _ _) (le_trans ?_ (le_max_left _ _)))
    omega
  split
  · exact wordRange_ne_nil (by omega)
  · exact wordRange_ne_nil (by omega)

theorem seedWords_ne_nil {spacing : Int} (positive : 0 < spacing) (tick : Int) :
    seedWords spacing tick ≠ [] := by
  unfold seedWords
  simp only
  split
  · apply List.ne_nil_of_mem (a := wordOf spacing tick)
    refine List.mem_filter.mpr ⟨?_, by simp⟩
    rw [viewportWords, if_neg (by omega : ¬spacing ≤ 0)]
    simp only [true_or, if_true]
    refine List.mem_map.mpr ⟨4, List.mem_range.mpr ?_, ?_⟩
    · unfold MAX_BITMAP_WORDS
      omega
    · unfold MAX_BITMAP_WORDS
      omega
  · exact viewportWords_ne_nil positive tick []

variable {loaded : Selection}

theorem loadCurveState_exact {block : Nat} {words : List Int}
    (concentrated : chain.concentrated = true) (positive : 0 < chain.spacing) (some_ : words ≠ [])
    (reuse : selection.canReuse block = true →
      CurveExact chain block selection.curveWords selection.tickNet)
    (found : selection.loadCurveState chain block words = some loaded) :
    loaded.curveReadBlock = block ∧ loaded.curveWords = words ∧
      CurveExact chain block loaded.curveWords loaded.tickNet := by
  have old : ∀ word ∈ selection.reusedWords block words, word ∈ words ∧
      word ∈ selection.curveWords ∧ CurveExact chain block selection.curveWords selection.tickNet := by
    intro word member
    unfold Selection.reusedWords at member
    split at member
    · rename_i can
      obtain ⟨known, wanted⟩ := List.mem_filter.mp member
      exact ⟨of_decide_eq_true wanted, known, reuse can⟩
    · cases member
  unfold Selection.loadCurveState at found
  rw [if_neg (by simp [concentrated, some_])] at found
  simp only at found
  split at found
  · cases found
  cases found
  refine ⟨rfl, rfl, ?_⟩
  generalize selection.reusedWords block words = reused at old
  have read := mem_ticksOf chain block (words.filter (· ∉ reused))
  intro tick net
  simp only
  constructor
  · intro known
    split at known
    · rename_i here
      obtain ⟨word, inside, bit, bound, set, rfl⟩ := (read tick).mp here.1
      refine ⟨?_, ⟨word, bit, bound, rfl, set⟩, (Option.some.inj known).symm⟩
      rw [wordOf_tick positive word bit bound]
      exact List.mem_of_mem_filter inside
    · split at known
      · rename_i kept
        obtain ⟨wanted, _, exact_⟩ := old _ kept
        obtain ⟨_, rest⟩ := (exact_ tick net).mp known
        exact ⟨wanted, rest⟩
      · cases known
  · rintro ⟨wanted, ⟨word, bit, bound, rfl, set⟩, rfl⟩
    rw [wordOf_tick positive word bit bound] at wanted ⊢
    by_cases kept : word ∈ reused
    · -- The tick of a reused word is not read again.
      have unread : (word * 256 + bit) * chain.spacing ∉
          ticksOf chain block (words.filter (· ∉ reused)) := by
        intro member
        obtain ⟨other, inside, bit', bound', _, same⟩ := (read _).mp member
        have equal : word = other := by
          rw [← wordOf_tick positive word bit bound, same, wordOf_tick positive other bit' bound']
        exact of_decide_eq_true (List.mem_filter.mp inside).2 (equal ▸ kept)
      rw [if_neg fun both => unread both.1, if_pos kept]
      obtain ⟨_, known, exact_⟩ := old word kept
      refine (exact_ _ _).mpr ⟨?_, ⟨word, bit, bound, rfl, set⟩, rfl⟩
      rw [wordOf_tick positive word bit bound]
      exact known
    · refine if_pos ⟨(read _).mpr ⟨word, ?_, bit, bound, set, rfl⟩,
        .inl (chain.grossed block word bit bound set)⟩
      exact List.mem_filter.mpr ⟨wanted, decide_eq_true kept⟩

def Renews (chain : Chain) (before after : Selection) : Prop :=
  ∃ rows mark identities dirty verified, after = { before with
    swaps := rows
    swapsTruncatedThroughTimestamp := mark
    currentEventIdentities := identities
    curveDirtyFromBlock := dirty
    curveVerifiedThroughBlock := verified } ∧
  ∀ state, before.curveStateBlock = some state →
    (∀ mark, before.curveVerifiedThroughBlock = some mark → Quiet chain state mark) →
    ∀ mark, verified = some mark → Quiet chain state mark

theorem Renews.refl (selection : Selection) : Renews chain selection selection :=
  ⟨_, _, _, _, _, rfl, fun _ _ quiet => quiet⟩

theorem Renews.trans {first second third : Selection} (before : Renews chain first second)
    (after : Renews chain second third) : Renews chain first third := by
  obtain ⟨_, _, _, _, _, rfl, quiet⟩ := before
  obtain ⟨_, _, _, _, _, rfl, quiet'⟩ := after
  exact ⟨_, _, _, _, _, rfl, fun state held known => quiet' state held (quiet state held known)⟩

theorem mergeSwapRow_renews (selection : Selection) (row : Row) :
    Renews chain selection (selection.mergeSwapRow row) := by
  unfold Selection.mergeSwapRow
  split
  · exact ⟨_, _, _, _, _, rfl, fun _ _ quiet => quiet⟩
  · exact ⟨_, _, _, _, _, rfl, fun _ _ quiet => quiet⟩

theorem applyEvent_renews (selection : Selection) (event : Event) :
    Renews chain selection (selection.applyEvent event) := by
  unfold Selection.applyEvent
  simp only
  by_cases known : selection.currentEventIdentities.get event.identity = some event
  · rw [if_pos known]
    exact .refl selection
  · rw [if_neg known]
    have noted : ∀ identities dirty, Renews chain selection { selection with
        currentEventIdentities := identities
        curveDirtyFromBlock := dirty } :=
      fun identities dirty => ⟨_, _, _, _, _, rfl, fun _ _ quiet => quiet⟩
    by_cases kind : event.kind = .swap
    · rw [if_pos kind]
      exact (noted _ _).trans (mergeSwapRow_renews _ event.row)
    · rw [if_neg kind]
      exact noted _ _

theorem verifyBelowDirty_renews (selection : Selection) :
    Renews chain selection selection.verifyBelowDirty := by
  unfold Selection.verifyBelowDirty
  split
  · rename_i held dirty
    refine ⟨_, _, _, _, _, rfl, ?_⟩
    rintro state known quiet mark ⟨⟩
    obtain rfl := Option.some.inj (held.symm.trans known)
    exact (orMark_quiet _ quiet _ le_rfl).below (min_le_left _ _)
  · exact .refl selection

theorem foldl_renews {Item : Type} (change : Selection → Item → Selection)
    (renews : ∀ selection item, Renews chain selection (change selection item)) (items : List Item)
    (selection : Selection) : Renews chain selection (items.foldl change selection) := by
  induction items generalizing selection with
  | nil => exact .refl selection
  | cons item rest ih => exact (renews selection item).trans (ih _)

theorem syncCurrentEvents_renews (selection : Selection) (feed : Feed chain) (throughBlock : Nat) :
    Renews chain selection (selection.syncCurrentEvents feed throughBlock) := by
  have applied : Renews chain selection _ := foldl_renews Selection.applyEvent applyEvent_renews
    (sortedBy Event.place (feed.events.filter (·.block ≤ throughBlock))) selection
  have synced := applied.trans (verifyBelowDirty_renews _)
  unfold Selection.syncCurrentEvents
  simp only
  split
  · exact synced
  · exact synced.trans ⟨_, _, _, _, _, rfl, fun _ _ quiet => quiet⟩

theorem expireSwaps_renews (selection : Selection) (cutoff : Int) :
    Renews chain selection (selection.expireSwaps cutoff) :=
  ⟨_, _, _, _, _, rfl, fun _ _ quiet => quiet⟩

theorem appendSwaps_renews (selection : Selection) (logs : List Log) :
    Renews chain selection (selection.appendSwaps chain logs) := by
  have merged : Renews chain selection _ := foldl_renews Selection.mergeSwapRow
    mergeSwapRow_renews (logs.filterMap (logRow chain)) selection
  unfold Selection.appendSwaps
  simp only
  split
  · exact merged
  · exact merged.trans (expireSwaps_renews _ _)

theorem coverShape_renews (selection : Selection) (logs : List Log) (start block : Nat)
    (complete : ∀ other, start ≤ other → other ≤ block → ∀ log ∈ chain.logs other, log ∈ logs) :
    Renews chain selection (selection.coverShape logs start block) := by
  have zero_or : ∀ state, selection.curveStateBlock = some state →
      orMark (selection.curveStateBlock.map Int.ofNat) (-1) ≤ state := by
    intro state held
    rw [held, Option.map_some, orMark]
    cases kept : (some (Int.ofNat state)).filter (· ≠ 0) with
    | none => simp
    | some mark =>
      have same := Option.some.inj (Option.eq_some_of_filter_eq_some kept)
      rw [Option.getD_some, ← same]
      exact le_rfl
  unfold Selection.coverShape
  simp only
  generalize orMark (selection.curveStateBlock.map Int.ofNat) (-1) = stateBlock at zero_or
  split
  · refine ⟨_, _, _, _, _, rfl, ?_⟩
    rintro state held quiet mark ⟨⟩
    exact (orMark_quiet _ quiet _ (zero_or state held)).below (min_le_left _ _)
  · rename_i none_
    split
    · rename_i joins
      refine ⟨_, _, _, _, _, rfl, ?_⟩
      rintro state held quiet mark ⟨⟩ other after upTo log member
      have known := orMark_quiet _ quiet stateBlock (zero_or state held)
      rcases le_or_gt (other : Int)
        (orMark selection.curveVerifiedThroughBlock stateBlock) with old | new
      · exact known other after old log member
      · -- A change of liquidity above the state block would be among the logs.
        by_contra shaped
        have inside : log ∈ logs := complete other (by omega) (by omega) log member
        have placed := chain.placed other log member
        have found : log.block ∈ ((logs.filter (·.body.changesShape)).map Log.block).filter
            fun (shaped : Nat) => decide (stateBlock < (shaped : Int)) := by
          refine List.mem_filter.mpr ⟨List.mem_map_of_mem (List.mem_filter.mpr
            ⟨inside, Bool.eq_true_of_not_eq_false shaped⟩), ?_⟩
          have := zero_or state held
          exact decide_eq_true (by omega)
        rw [List.min?_eq_none_iff.mp none_] at found
        cases found
    · exact .refl selection

def Traced (chain : Chain) (selection : Selection) : Prop :=
  (chain.spacing ≤ 0 ∧ selection.curveWords = []) ∨
    (0 < chain.spacing ∧ ∃ state, Marked chain selection state)

structure Sound (chain : Chain) (selection : Selection) : Prop where
  traced : selection.needsSeed = false → Traced chain selection
  published : ∀ snapshot, selection.snapshot = some snapshot → snapshot.curveComplete = true →
    CurveExact chain snapshot.block snapshot.curveWords snapshot.tickNet

structure SameCurve (before after : Selection) : Prop where
  needsSeed : after.needsSeed = before.needsSeed
  cursor : after.cursor = before.cursor
  tickNet : after.tickNet = before.tickNet
  curveWords : after.curveWords = before.curveWords
  curveStateBlock : after.curveStateBlock = before.curveStateBlock
  verified : after.curveVerifiedThroughBlock = before.curveVerifiedThroughBlock
  curveReadBlock : after.curveReadBlock = before.curveReadBlock

variable {head : Nat} {before after : Selection}

theorem SameCurve.traced (same : SameCurve before after)
    (traced : before.needsSeed = false → Traced chain before) :
    after.needsSeed = false → Traced chain after := by
  rw [same.needsSeed]
  intro seeded
  rcases traced seeded with ⟨flat, empty⟩ | ⟨positive, state, marked⟩
  · exact .inl ⟨flat, same.curveWords.trans empty⟩
  · refine .inr ⟨positive, state, same.curveStateBlock.trans marked.held, ?_, ?_, ?_, ?_⟩
    · rw [same.cursor]
      exact marked.confirmed
    · rw [same.curveReadBlock]
      exact marked.read
    · rw [same.curveReadBlock, same.curveWords, same.tickNet]
      exact marked.exact_
    · rw [same.verified]
      exact marked.quiet

theorem Sound.elsewhere (sound : Sound chain before) (same : SameCurve before after)
    (shown : after.snapshot = before.snapshot) :
    Sound chain after :=
  ⟨same.traced sound.traced, shown ▸ sound.published⟩

theorem Renews.marked {state : Nat} (renews : Renews chain before after)
    (marked : Marked chain before state) : Marked chain after state := by
  obtain ⟨_, _, _, _, _, rfl, quiet⟩ := renews
  exact ⟨marked.held, marked.confirmed, marked.read, marked.exact_,
    quiet state marked.held marked.quiet⟩

theorem Sound.renews (sound : Sound chain before) (renews : Renews chain before after) :
    Sound chain after := by
  have marked : ∀ state, Marked chain before state → Marked chain after state :=
    fun state => renews.marked
  obtain ⟨_, _, _, _, _, rfl, _⟩ := renews
  refine ⟨?_, sound.published⟩
  intro seeded
  exact (sound.traced seeded).imp_right
    (And.imp_right fun ⟨state, known⟩ => ⟨state, marked state known⟩)

theorem distrusted_sound (sound : Sound chain selection) : Sound chain selection.distrusted := by
  refine ⟨?_, sound.published⟩
  intro seeded
  cases seeded

theorem publish_sound (concentrated : chain.concentrated = true) (sound : Sound chain selection)
    (seeded : selection.needsSeed = false)
    (ahead : 0 < chain.spacing → Quiet chain head selection.curveReadBlock) :
    Sound chain (selection.publish chain head) := by
  have expired := sound.renews (expireSwaps_renews selection (chain.timestamp head - 3600))
  have same : SameCurve (selection.expireSwaps (chain.timestamp head - 3600))
      (selection.publish chain head) := ⟨rfl, rfl, rfl, rfl, rfl, rfl, rfl⟩
  refine ⟨same.traced expired.traced, ?_⟩
  rintro snapshot ⟨⟩ complete
  show CurveExact chain head selection.curveWords selection.tickNet
  simp only [Selection.curveComplete, concentrated, Bool.not_true, Bool.false_or,
    Bool.and_eq_true] at complete
  obtain ⟨⟨some_, _⟩, verified⟩ := complete
  obtain ⟨mark, held, reaches⟩ := (Option.any_eq_true _ _).mp verified
  rcases sound.traced seeded with ⟨_, empty⟩ | ⟨positive, state, marked⟩
  · have none_ : (selection.expireSwaps (chain.timestamp head - 3600)).curveWords = [] := empty
    rw [none_] at some_
    cases some_
  · exact marked.at_head (ahead positive) (.inr ⟨mark, held, of_decide_eq_true reaches⟩)

theorem cleared_sound (sound : Sound chain selection) (unseeded : selection.needsSeed = true) :
    Sound chain selection.cleared := by
  refine ⟨?_, sound.published⟩
  intro seeded
  rw [show selection.cleared.needsSeed = selection.needsSeed from rfl, unseeded] at seeded
  cases seeded

theorem loaded_unseeded {block : Nat} {words : List Int} (sound : Sound chain selection)
    (unseeded : selection.needsSeed = true)
    (found : selection.loadCurveState chain block words = some loaded) : Sound chain loaded := by
  obtain ⟨_, _, _, rfl⟩ := loadCurveState_changes found
  refine ⟨?_, sound.published⟩
  intro seeded
  rw [show (_ : Bool) = selection.needsSeed from rfl, unseeded] at seeded
  cases seeded

theorem seededAt_sound (concentrated : chain.concentrated = true)
    (sound : Sound chain selection.cleared)
    (found : selection.cleared.loadCurveState chain head
      (seedWords chain.spacing (chain.tick head)) = some loaded) :
    Sound chain (loaded.seededAt chain head) ∧
      (0 < chain.spacing → loaded.curveReadBlock = head) := by
  have fresh : selection.cleared.canReuse head = false := by
    simp [Selection.canReuse, Selection.cleared]
  rcases lt_or_ge 0 chain.spacing with positive | flat
  · obtain ⟨read, words, exact_⟩ := loadCurveState_exact concentrated positive
      (seedWords_ne_nil positive _) (fun can => by rw [fresh] at can; cases can) found
    obtain ⟨_, _, _, rfl⟩ := loadCurveState_changes found
    refine ⟨⟨fun _ => .inr ⟨positive, head, rfl, le_rfl, ge_of_eq read, ?_, ?_⟩,
      sound.published⟩, fun _ => read⟩
    · exact read.symm ▸ exact_
    · rintro mark ⟨⟩ block after upTo
      omega
  · have none_ : seedWords chain.spacing (chain.tick head) = [] := by
      rw [seedWords, viewportWords, if_pos flat]
      rfl
    rw [Selection.loadCurveState, if_pos (.inr none_)] at found
    cases found
    exact ⟨⟨fun _ => .inl ⟨flat, rfl⟩, sound.published⟩, fun positive => absurd positive (by omega)⟩

theorem synced_same (selection : Selection) (feed : Feed chain) (head : Nat) :
    (selection.syncCurrentEvents feed head).needsSeed = selection.needsSeed ∧
      (selection.syncCurrentEvents feed head).cursor = selection.cursor ∧
      (selection.syncCurrentEvents feed head).curveReadBlock = selection.curveReadBlock := by
  obtain ⟨_, _, _, _, _, same, _⟩ : Renews chain selection _ :=
    syncCurrentEvents_renews selection feed head
  rw [same]
  exact ⟨rfl, rfl, rfl⟩

theorem Quiet.self (block : Nat) : Quiet chain block block := by
  intro other after upTo
  omega

theorem seed_sound (concentrated : chain.concentrated = true) (sound : Sound chain selection)
    (unseeded : selection.needsSeed = true) (head : Nat) (feed : Feed chain) (progress : Progress)
    (next : Selection) (seeded : selection.seed head feed progress = some next) :
    Sound chain next := by
  have cleared := cleared_sound sound unseeded
  cases progress with
  | begun => exact Option.some.inj seeded ▸ sound
  | synced => exact Option.some.inj seeded ▸ cleared
  | loaded =>
    simp only [Selection.seed] at seeded
    split at seeded
    · exact Option.some.inj seeded ▸ cleared
    · rename_i loaded found
      exact Option.some.inj seeded ▸ loaded_unseeded cleared unseeded found
  | published =>
    simp only [Selection.seed, reduceCtorEq, if_false] at seeded
    split at seeded
    · exact Option.some.inj seeded ▸ cleared
    · rename_i loaded found
      cases seeded
      obtain ⟨started, read⟩ := seededAt_sound concentrated cleared found
      have same := synced_same (loaded.seededAt chain head) feed head
      refine publish_sound concentrated (started.renews (syncCurrentEvents_renews _ feed head))
        same.1 ?_
      intro positive
      rw [same.2.2, show (loaded.seededAt chain head).curveReadBlock = head from read positive]
      exact .self head

theorem refreshCurve_sound {refreshed : Bool} (concentrated : chain.concentrated = true)
    (sound : Sound chain selection) (seeded : selection.needsSeed = false)
    (later : selection.cursor ≤ head) (ahead : Quiet chain head selection.curveReadBlock)
    (found : selection.refreshCurve chain head = some (loaded, refreshed)) :
    Sound chain loaded ∧ loaded.needsSeed = false ∧ loaded.cursor = selection.cursor ∧
      (0 < chain.spacing → Quiet chain head loaded.curveReadBlock) ∧
      (refreshed = true → 0 < chain.spacing → loaded.curveReadBlock = head) := by
  unfold Selection.refreshCurve at found
  simp only at found
  split at found
  · obtain ⟨read, loading, same⟩ := Option.map_eq_some_iff.mp found
    cases same
    have changes := loadCurveState_changes loading
    rcases sound.traced seeded with ⟨flat, empty⟩ | ⟨positive, state, marked⟩
    · rw [viewportWords, if_pos flat, Selection.loadCurveState, if_pos (.inr rfl)] at loading
      cases loading
      exact ⟨sound, seeded, rfl, fun positive => absurd positive (by omega),
        fun _ positive => absurd positive (by omega)⟩
    · obtain ⟨here, words, exact_⟩ := loadCurveState_exact concentrated positive
        (viewportWords_ne_nil positive _ _) (fun can => marked.at_head ahead (by
          rw [Selection.canReuse, Bool.or_eq_true, Bool.and_eq_true] at can
          rcases can with same | ⟨_, reaches⟩
          · left
            exact Option.some.inj (marked.held.symm.trans (of_decide_eq_true same))
          · obtain ⟨mark, held, inside⟩ := (Option.any_eq_true _ _).mp reaches
            exact .inr ⟨mark, held, of_decide_eq_true inside⟩)) loading
      obtain ⟨_, _, _, rfl⟩ := changes
      refine ⟨⟨fun _ => .inr ⟨positive, state, marked.held, marked.confirmed, ?_, ?_,
        marked.quiet⟩, sound.published⟩, seeded, rfl, fun _ => ?_, fun _ _ => here⟩
      · exact le_trans marked.confirmed (here ▸ later)
      · exact here.symm ▸ exact_
      · exact here ▸ Quiet.self _
  · cases found
    exact ⟨sound, seeded, rfl, fun _ => ahead, fun wrong => by cases wrong⟩

theorem markCurve_sound (sound : Sound chain selection) (seeded : selection.needsSeed = false)
    (reached : head ≤ selection.cursor) (read : 0 < chain.spacing → selection.curveReadBlock = head)
    :
    Sound chain (selection.markCurve head) := by
  refine ⟨?_, sound.published⟩
  intro _
  rcases sound.traced seeded with ⟨flat, empty⟩ | ⟨positive, state, marked⟩
  · exact .inl ⟨flat, empty⟩
  · refine .inr ⟨positive, head, rfl, reached, ge_of_eq (read positive), marked.exact_, ?_⟩
    rintro mark ⟨⟩
    exact .self head

theorem moved_sound (sound : Sound chain selection) (head : Nat) (hash : String)
    (later : selection.cursor ≤ head) :
    Sound chain { selection with cursor := head, cursorHash := hash } := by
  refine ⟨?_, sound.published⟩
  intro seeded
  rcases sound.traced seeded with flat | ⟨positive, state, marked⟩
  · exact .inl flat
  · exact .inr ⟨positive, state, marked.held, le_trans marked.confirmed later, marked.read,
      marked.exact_, marked.quiet⟩

theorem advancedTo_sound {refreshed : Bool} (concentrated : chain.concentrated = true)
    (sound : Sound chain selection) (seeded : selection.needsSeed = false)
    (later : selection.cursor ≤ head)
    (read : refreshed = true → 0 < chain.spacing → selection.curveReadBlock = head) :
    Sound chain (selection.advancedTo chain head refreshed) := by
  have moved := moved_sound sound head (chain.hash head) later
  unfold Selection.advancedTo
  simp only [concentrated, Bool.true_eq_false, if_false]
  split
  · rename_i fresh
    exact (markCurve_sound moved seeded le_rfl (read fresh)).elsewhere
      ⟨rfl, rfl, rfl, rfl, rfl, rfl, rfl⟩ rfl
  · exact moved.elsewhere ⟨rfl, rfl, rfl, rfl, rfl, rfl, rfl⟩ rfl

theorem advance_sound (concentrated : chain.concentrated = true) (sound : Sound chain selection)
    (seeded : selection.needsSeed = false) (head : Nat) (feed : Feed chain) (progress : Progress)
    (ahead : selection.cursor ≤ head → Quiet chain head selection.curveReadBlock) :
    Sound chain (selection.advance head feed progress) := by
  have distrusted := distrusted_sound sound
  have synced := sound.renews (syncCurrentEvents_renews selection feed head)
  have same := synced_same selection feed head
  unfold Selection.advance
  split
  · exact distrusted
  rename_i later
  split
  · exact distrusted
  split
  · exact distrusted
  split
  · exact distrusted
  split
  · exact sound
  simp only
  split
  · exact synced
  split
  · exact synced
  · rename_i loaded refreshed found
    have order : selection.cursor ≤ head := Nat.le_of_not_lt later
    obtain ⟨read, seeded', cursor, quiet, here⟩ := refreshCurve_sound concentrated synced
      (same.1.trans seeded) (same.2.1 ▸ order) (same.2.2 ▸ ahead order) found
    rw [same.2.1] at cursor
    split
    · exact read
    split
    · rename_i at_
      split
      · rename_i fresh
        exact publish_sound concentrated
          (markCurve_sound read seeded' (ge_of_eq (cursor.trans at_.symm)) (here fresh)) seeded' quiet
      · exact publish_sound concentrated read seeded' quiet
    · have advanced := advancedTo_sound concentrated read seeded' (cursor ▸ order) here
      refine publish_sound concentrated advanced ?_ ?_
      · unfold Selection.advancedTo
        split
        · exact seeded'
        · split <;> exact seeded'
      · unfold Selection.advancedTo
        split
        · exact quiet
        · split <;> exact quiet

theorem finishHistory_sound (sound : Sound chain selection) (job : Job) :
    Sound chain (selection.finishHistory chain job) := by
  unfold Selection.finishHistory
  split
  · exact sound
  split
  · exact distrusted_sound sound
  split
  · exact sound
  simp only
  generalize job.start chain = start
  have covered : Sound chain (selection.coverSwaps chain start job.block) :=
    sound.elsewhere ⟨rfl, rfl, rfl, rfl, rfl, rfl, rfl⟩ rfl
  have added := (covered.renews (appendSwaps_renews _ (logsOf chain start job.block))).renews
    (coverShape_renews _ (logsOf chain start job.block) start job.block (by
      intro block first last log member
      refine (List.perm_insertionSort _ _).mem_iff.mpr (List.mem_flatMap.mpr ⟨block, ?_, member⟩)
      exact List.mem_range'_1.mpr ⟨first, by omega⟩))
  exact added.elsewhere ⟨rfl, rfl, rfl, rfl, rfl, rfl, rfl⟩ rfl

theorem step_sound (concentrated : chain.concentrated = true) (world next : World)
    (sound : Sound chain world.selection) (action : Action chain) (keeps : headKeeps chain world action)
    (stepped : step chain world action = some next) : Sound chain next.selection := by
  cases action with
  | seed head feed progress =>
    simp only [step] at stepped
    split at stepped
    · rename_i unseeded
      obtain ⟨selection, seeded, rfl⟩ := Option.map_eq_some_iff.mp stepped
      exact seed_sound concentrated sound unseeded head feed progress selection seeded
    · cases stepped
  | advance head feed progress =>
    simp only [step] at stepped
    split at stepped
    · cases stepped
    · rename_i seeded
      cases stepped
      exact advance_sound concentrated sound (Bool.not_eq_true _ ▸ seeded) head feed progress keeps
  | distrust =>
    cases stepped
    exact distrusted_sound sound
  | beginHistory =>
    simp only [step] at stepped
    split at stepped
    · cases stepped
      exact sound
    · cases stepped
  | finishHistory =>
    obtain ⟨job, _, rfl⟩ := Option.map_eq_some_iff.mp stepped
    exact finishHistory_sound sound job
  | historyFailed message =>
    obtain ⟨job, _, rfl⟩ := Option.map_eq_some_iff.mp stepped
    exact sound.elsewhere ⟨rfl, rfl, rfl, rfl, rfl, rfl, rfl⟩ rfl
  | olderScanned =>
    simp only [step] at stepped
    split at stepped
    · cases stepped
    · cases stepped
      exact sound.elsewhere ⟨rfl, rfl, rfl, rfl, rfl, rfl, rfl⟩ rfl
  | refreshed positions =>
    cases stepped
    exact sound.elsewhere ⟨rfl, rfl, rfl, rfl, rfl, rfl, rfl⟩ rfl

/-- In every run whose heads keep up with the reads, a curve shown as complete is the
chain's at the block of the snapshot. -/
theorem complete_curve (chain : Chain) (concentrated : chain.concentrated = true) (world : World)
    (reached : (laneRuns chain).Reaches (headKeeps chain) world) (snapshot : Snapshot)
    (published : world.selection.snapshot = some snapshot)
    (complete : snapshot.curveComplete = true) :
    CurveExact chain snapshot.block snapshot.curveWords snapshot.tickNet := by
  have sound : Sound chain world.selection := by
    refine System.Reaches.invariant (fun world => Sound chain world.selection) ?_ ?_ world reached
    · rintro world rfl
      constructor
      · intro seeded
        cases seeded
      · intro snapshot wrong
        cases wrong
    · intro world action next sound keeps stepped
      exact step_sound concentrated world next sound action keeps stepped
  exact sound.published snapshot published complete

/-! ### A read that its marks do not follow

At block 105 liquidity is added between ticks 5 and 10, and the price moves to the next
word. An advance to head 110 reads the curve and fails before the head is confirmed. A
lagging source then shows head 100, which is still the cursor, so the words that both
viewports share are taken over. -/

theorem mint_bits : ∀ bit < 256, (2 ^ 5 + 2 ^ 10).testBit bit = true → bit = 5 ∨ bit = 10 := by
  decide +kernel

def lateMint : Chain where
  concentrated := true
  spacing := 1
  timestamp block := block
  hash block := toString block
  logs block := if block = 105 then [⟨"mint", 0, 0, 105, .mint⟩] else []
  tick block := if block < 105 then 0 else 256
  bitmap block word := if 105 ≤ block ∧ word = 0 then 2 ^ 5 + 2 ^ 10 else 0
  gross block tick := if 105 ≤ block ∧ (tick = 5 ∨ tick = 10) then 1 else 0
  net block tick := if 105 ≤ block then (if tick = 5 then 1 else if tick = 10 then -1 else 0) else 0
  later := fun _ _ order => Int.ofNat_le.mpr order
  placed := by
    intro block log member
    split at member
    · rename_i here
      rw [List.mem_singleton.mp member, here]
    · cases member
  distinct := by
    intro block other log member log' member' _
    split at member
    · split at member'
      · rw [List.mem_singleton.mp member, List.mem_singleton.mp member']
      · cases member'
    · cases member
  grossed := by
    intro block word bit bound set
    split at set
    · rename_i here
      have place := mint_bits bit bound set
      rw [if_pos ⟨here.1, by omega⟩]
      exact Nat.one_ne_zero
    · rw [Nat.zero_testBit] at set
      cases set
  unshaped := by
    intro block quiet
    by_cases here : block + 1 = 105
    · have shaped := quiet ⟨"mint", 0, 0, 105, .mint⟩ (by rw [if_pos here]; exact .head _)
      cases shaped
    · have same : 105 ≤ block + 1 ↔ 105 ≤ block := by omega
      simp only [same, and_self]

def laggingActions : List (Action lateMint) :=
  [.seed 100 .none .published, .advance 110 .none .loaded, .advance 100 .none .published]

def steadyActions : List (Action lateMint) :=
  [.seed 100 .none .published, .advance 110 .none .loaded, .advance 110 .none .published,
    .beginHistory, .finishHistory, .advance 110 .none .published]

def headsRise (world : World) : Action lateMint → Prop
  | .advance head _ _ => world.selection.curveReadBlock ≤ head
  | _ => True

instance (world : World) (action : Action lateMint) : Decidable (headsRise world action) := by
  cases action <;> unfold headsRise <;> infer_instance

theorem laggingActions_taken :
    ((laneRuns lateMint).run ⟨.new, none⟩ laggingActions).isSome := by decide

theorem steadyActions_taken :
    ((laneRuns lateMint).run ⟨.new, none⟩ steadyActions).isSome := by decide

def laggingWorld : World :=
  ((laneRuns lateMint).run ⟨.new, none⟩ laggingActions).get laggingActions_taken

def steadyWorld : World :=
  ((laneRuns lateMint).run ⟨.new, none⟩ steadyActions).get steadyActions_taken

/-- The snapshot at block 100 shows the liquidity of block 105. -/
theorem lagging_curve_wrong :
    ¬∀ (chain : Chain) (world : World), chain.concentrated = true →
      (laneRuns chain).Reaches always world → ∀ snapshot,
        world.selection.snapshot = some snapshot → snapshot.curveComplete = true →
        CurveExact chain snapshot.block snapshot.curveWords snapshot.tickNet := by
  intro exact_
  have reached : (laneRuns lateMint).Reaches always laggingWorld :=
    System.Reaches.run (⟨.new, none⟩ : World) _ laggingActions (.start _ rfl)
      (System.runMeets_always _ _) (Option.some_get _).symm
  have shown : laggingWorld.selection.snapshot.map (fun snapshot =>
      (snapshot.block, snapshot.tickNet 5, snapshot.curveComplete)) = some (100, some 1, true) := by
    decide +kernel
  obtain ⟨snapshot, published, same⟩ := Option.map_eq_some_iff.mp shown
  simp only [Prod.mk.injEq] at same
  obtain ⟨block, tick, complete⟩ := same
  obtain ⟨_, ⟨word, bit, _, _, set⟩, _⟩ :=
    (exact_ lateMint laggingWorld rfl reached snapshot published complete 5 1).mp tick
  rw [block, show lateMint.bitmap 100 word = 0 from rfl, Nat.zero_testBit] at set
  cases set

theorem steadyWorld_reached : (laneRuns lateMint).Reaches (headKeeps lateMint) steadyWorld := by
  have rises : (laneRuns lateMint).Reaches headsRise steadyWorld :=
    System.Reaches.run (⟨.new, none⟩ : World) _ steadyActions (.start _ rfl) (by decide)
      (Option.some_get _).symm
  apply rises.weaken
  intro world action rise
  cases action with
  | advance head feed progress =>
    intro _ block after upTo
    have : world.selection.curveReadBlock ≤ head := rise
    omega
  | _ => trivial

/-- After the head has caught up the curve is complete again, and right. -/
theorem steady_curve_right : ∃ snapshot, steadyWorld.selection.snapshot = some snapshot ∧
    snapshot.tickNet 5 = some 1 ∧ CurveExact lateMint 110 snapshot.curveWords snapshot.tickNet := by
  have shown : steadyWorld.selection.snapshot.map (fun snapshot =>
      (snapshot.block, snapshot.tickNet 5, snapshot.curveComplete)) = some (110, some 1, true) := by
    decide +kernel
  obtain ⟨snapshot, published, same⟩ := Option.map_eq_some_iff.mp shown
  simp only [Prod.mk.injEq] at same
  obtain ⟨block, tick, complete⟩ := same
  have exact_ := complete_curve lateMint rfl steadyWorld steadyWorld_reached snapshot published
    complete
  exact ⟨snapshot, published, tick, block ▸ exact_⟩

end RhPools.CurveMarks
