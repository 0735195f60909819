import Mathlib.Data.List.Pairwise
import RhPools.OrderedTables
import RhPools.RpcBatch

/-! A batch whose calls need different sources. The calls are grouped by capability,
each group is a batch of its own, and the results go back to the places of their
calls. An answer is therefore kept by the batch when its group keeps it. -/

namespace RhPools.MixedBatch
open GuardedRuns OrderedTables RpcBatch

variable {Params Value : Type}

def grouped (capability : Call Params → String) (calls : List (Call Params)) :
    OrderedTable String (List (Item Params)) :=
  (calls.zipIdx.map Prod.swap).foldl
    (fun groups item => groups.append (capability item.2) item) .empty

def exception : Entry Value → Option Failure
  | .reverted failure => some failure
  | .failed failure => some failure
  | _ => none

def placeAll (pairs : List (Nat × Entry Value)) (output : List (Entry Value)) :
    List (Entry Value) :=
  pairs.foldl (fun output pair => output.set pair.1 pair.2) output

/-- `_run_batch`, given the list returned for each group. With one capability that is
the list; with several, the entries are put in their places, or the first exception
ends the batch. -/
def runBatch (capability : Call Params → String) (calls : List (Call Params)) (stopOnError : Bool)
    (results : List (List (Entry Value))) : Except Failure (List (Entry Value)) :=
  match (grouped capability calls).entries, results with
  | [_], [only] => .ok only
  | groups, results =>
    match results.flatten.findSome? exception with
    | some failure =>
      if stopOnError then .error failure else .ok (place groups results)
    | none => .ok (place groups results)
where
  place (groups : List (String × List (Item Params))) (results : List (List (Entry Value))) :
      List (Entry Value) :=
    (groups.zip results).foldl (fun output run =>
      placeAll ((run.1.2.map Prod.fst).zip run.2) output) (List.replicate calls.length (.value none))

structure GroupRun (Params Value : Type) where
  capability : String
  items : List (Item Params)
  state : State Params Value
  output : List (Entry Value)

/-- No source of the run answered null to a call that is not a hash lookup, and the
run has returned its list. -/
def GroupRun.Ended (routing : Routing) (run : GroupRun Params Value) : Prop :=
  (batchRuns { routing with capability := run.capability } (run.items.map Prod.snd)).Reaches
    (nullsToLookups { routing with capability := run.capability }) run.state ∧
  run.state.returned = some run.output

/-- What the sources of a run answered, under the indices of the whole batch. -/
def GroupRun.answers (run : GroupRun Params Value) : List (Nat × Entry Value) :=
  run.state.board.answers.filterMap fun answer =>
    run.items[answer.1]?.map fun item => (item.1, answer.2)

def allAnswers (runs : List (GroupRun Params Value)) : List (Nat × Entry Value) :=
  runs.flatMap GroupRun.answers

variable (pairs : List (Nat × Entry Value)) (output : List (Entry Value))

theorem length_placeAll :
    (placeAll pairs output).length = output.length := by
  induction pairs generalizing output with
  | nil => rfl
  | cons pair rest ih => exact (ih (output.set pair.1 pair.2)).trans List.length_set

theorem placeAll_other (index : Nat) (absent : index ∉ pairs.map Prod.fst) :
    (placeAll pairs output)[index]? = output[index]? := by
  induction pairs generalizing output with
  | nil => rfl
  | cons pair rest ih =>
    rw [List.map_cons, List.mem_cons, not_or] at absent
    exact (ih (output.set pair.1 pair.2) absent.2).trans (List.getElem?_set_ne (Ne.symm absent.1))

theorem placeAll_at (distinct : (pairs.map Prod.fst).Nodup) (pair : Nat × Entry Value)
    (member : pair ∈ pairs) (bound : pair.1 < output.length) :
    (placeAll pairs output)[pair.1]? = some pair.2 := by
  induction pairs generalizing output with
  | nil => cases member
  | cons first rest ih =>
    obtain ⟨fresh, distinct⟩ := List.nodup_cons.mp distinct
    rcases List.mem_cons.mp member with rfl | later
    · have kept := placeAll_other rest (output.set pair.1 pair.2) pair.1 fresh
      exact kept.trans (List.getElem?_set_self bound)
    · exact ih (output.set first.1 first.2) distinct later (by rw [List.length_set]; exact bound)

theorem grouped_perm (capability : Call Params → String) (calls : List (Call Params)) :
    ((grouped capability calls).entries.flatMap Prod.snd).Perm (calls.zipIdx.map Prod.swap) := by
  have all : ∀ (items : List (Item Params)) (groups : OrderedTable String (List (Item Params))),
      ((items.foldl (fun groups item => groups.append (capability item.2) item) groups).entries.flatMap
        Prod.snd).Perm (items ++ groups.entries.flatMap Prod.snd) := by
    intro items
    induction items with
    | nil => exact fun groups => .refl _
    | cons item rest ih =>
      intro groups
      have later := ih (groups.append (capability item.2) item)
      have here := append_perm groups (capability item.2) item
      exact later.trans ((here.append_left rest).trans List.perm_middle)
  have whole := all (calls.zipIdx.map Prod.swap) .empty
  rwa [OrderedTable.empty, List.flatMap_nil, List.append_nil] at whole

theorem grouped_sublist (capability : Call Params → String) (calls : List (Call Params))
    (group : String × List (Item Params)) (member : group ∈ (grouped capability calls).entries) :
    group.2.Sublist (calls.zipIdx.map Prod.swap) := by
  have all : ∀ (items before : List (Item Params))
      (groups : OrderedTable String (List (Item Params))),
      (∀ group ∈ groups.entries, group.2.Sublist before) →
      ∀ group ∈ (items.foldl (fun groups item => groups.append (capability item.2) item)
        groups).entries, group.2.Sublist (before ++ items) := by
    intro items
    induction items with
    | nil =>
      intro before groups parts group member
      rw [List.append_nil]
      exact parts group member
    | cons item rest ih =>
      intro before groups parts group member
      rw [List.append_cons]
      refine ih (before ++ [item]) (groups.append (capability item.2) item) ?_ group member
      intro group member
      rcases mem_assign groups _ _ group member with old | rfl
      · exact (parts group old).trans (List.sublist_append_left _ _)
      · apply List.Sublist.append _ (List.Sublist.refl _)
        cases found : groups.get (capability item.2) with
        | none => exact List.nil_sublist _
        | some old => exact parts _ ((get_some groups _ old).mp found)
  simpa using all (calls.zipIdx.map Prod.swap) [] .empty (fun group wrong => by cases wrong)
    group member

section Groups
variable {capability : Call Params → String} {calls : List (Call Params)}
  {runs : List (GroupRun Params Value)}

theorem runs_perm (groups : runs.map (fun run => (run.capability, run.items)) =
    (grouped capability calls).entries) :
    (runs.flatMap (·.items)).Perm (calls.zipIdx.map Prod.swap) := by
  have same : runs.flatMap (·.items) = (grouped capability calls).entries.flatMap Prod.snd := by
    rw [← groups, List.flatMap_map]
  exact same ▸ grouped_perm capability calls

theorem items_of (perm : (runs.flatMap (·.items)).Perm (calls.zipIdx.map Prod.swap))
    (item : Item Params) : (∃ run ∈ runs, item ∈ run.items) ↔ calls[item.1]? = some item.2 := by
  rw [← List.mem_flatMap, perm.mem_iff]
  obtain ⟨index, call⟩ := item
  simp [List.mem_zipIdx_iff_getElem?]

theorem indices_distinct (perm : (runs.flatMap (·.items)).Perm (calls.zipIdx.map Prod.swap)) :
    ((runs.flatMap (·.items)).map Prod.fst).Nodup := by
  rw [(perm.map Prod.fst).nodup_iff, List.map_map]
  have same : (calls.zipIdx.map (Prod.fst ∘ Prod.swap)) = List.range calls.length := by
    simp [Function.comp_def, List.range_eq_range']
  exact same ▸ List.nodup_range

theorem place_unique (perm : (runs.flatMap (·.items)).Perm (calls.zipIdx.map Prod.swap))
    {run other : GroupRun Params Value} (member : run ∈ runs) (member' : other ∈ runs)
    {place place' : Nat} {item item' : Item Params} (here : run.items[place]? = some item)
    (there : other.items[place']? = some item') (same : item.1 = item'.1) :
    run = other ∧ place = place' := by
  have distinct := indices_distinct perm
  rw [List.map_flatMap, List.nodup_flatMap] at distinct
  have inside : item.1 ∈ run.items.map Prod.fst :=
    List.mem_map_of_mem (List.mem_of_getElem? here)
  have inside' : item.1 ∈ other.items.map Prod.fst :=
    same ▸ List.mem_map_of_mem (List.mem_of_getElem? there)
  obtain rfl : run = other := by
    by_contra apart
    have : Std.Symm (Function.onFun List.Disjoint fun run : GroupRun Params Value =>
      run.items.map Prod.fst) := ⟨fun _ _ away _ left right => away right left⟩
    exact distinct.2.forall member member' apart inside inside'
  refine ⟨rfl, ?_⟩
  have first : (run.items.map Prod.fst)[place]? = some item.1 := by rw [List.getElem?_map, here]; rfl
  have second : (run.items.map Prod.fst)[place']? = some item.1 := by
    rw [List.getElem?_map, there, same]
    rfl
  obtain ⟨bound, value⟩ := List.getElem?_eq_some_iff.mp first
  obtain ⟨bound', value'⟩ := List.getElem?_eq_some_iff.mp second
  exact (distinct.1 run member).getElem_inj_iff.mp (value.trans value'.symm)

theorem mem_allAnswers (perm : (runs.flatMap (·.items)).Perm (calls.zipIdx.map Prod.swap))
    {run : GroupRun Params Value} (member : run ∈ runs) {place : Nat} {item : Item Params}
    (here : run.items[place]? = some item) (entry : Entry Value) :
    (item.1, entry) ∈ allAnswers runs ↔ (place, entry) ∈ run.state.board.answers := by
  constructor
  · intro told
    obtain ⟨other, member', inside⟩ := List.mem_flatMap.mp told
    obtain ⟨⟨place', entry'⟩, answered, shifted⟩ := List.mem_filterMap.mp inside
    obtain ⟨item', there, same⟩ := Option.map_eq_some_iff.mp shifted
    obtain ⟨index, rfl⟩ := Prod.mk.injEq .. ▸ same
    obtain ⟨rfl, rfl⟩ := place_unique perm member' member there here index
    exact answered
  · intro answered
    refine List.mem_flatMap.mpr ⟨run, member, List.mem_filterMap.mpr ⟨(place, entry), answered, ?_⟩⟩
    rw [here]
    rfl

theorem answered_iff (perm : (runs.flatMap (·.items)).Perm (calls.zipIdx.map Prod.swap))
    {run : GroupRun Params Value} (member : run ∈ runs) {place : Nat} {item : Item Params}
    (here : run.items[place]? = some item) :
    Answered (allAnswers runs) item.1 ↔ Answered run.state.board.answers place := by
  apply exists_congr
  intro entry
  rw [mem_allAnswers perm member here entry]

def Placed (runs : List (GroupRun Params Value)) (output : List (Entry Value)) : Prop :=
  ∀ run ∈ runs, ∀ (place : Nat) item, run.items[place]? = some item →
    output[item.1]? = run.output[place]?

theorem kept_groups (perm : (runs.flatMap (·.items)).Perm (calls.zipIdx.map Prod.swap))
    (whole : ∀ run ∈ runs, run.output.length = run.items.length) (output : List (Entry Value))
    (length : output.length = calls.length) (placed : Placed runs output) :
    Kept calls (allAnswers runs) output ↔
      ∀ run ∈ runs, Kept (run.items.map Prod.snd) run.state.board.answers run.output := by
  have right : ∀ run ∈ runs, ∀ (place : Nat) item, run.items[place]? = some item →
      ∀ entry, (((∃ failure, entry = .failed failure) ∨ (item.1, entry) ∈ allAnswers runs ∧
          (entry = .value none → item.2.method ∈ HASH_LOOKUP_METHODS)) ∧
        (Answered (allAnswers runs) item.1 → (item.1, entry) ∈ allAnswers runs ∧ entry.isAnswer) ↔
        ((∃ failure, entry = .failed failure) ∨ (place, entry) ∈ run.state.board.answers ∧
          (entry = .value none → item.2.method ∈ HASH_LOOKUP_METHODS)) ∧
        (Answered run.state.board.answers place →
          (place, entry) ∈ run.state.board.answers ∧ entry.isAnswer)) := by
    intro run member place item here entry
    rw [mem_allAnswers perm member here, answered_iff perm member here]
  constructor
  · rintro ⟨_, fits⟩ run member
    refine ⟨by rw [whole run member, List.length_map], ?_⟩
    intro place call entry found stands
    rw [List.getElem?_map] at found
    obtain ⟨item, here, rfl⟩ := Option.map_eq_some_iff.mp found
    refine (right run member place item here entry).mp (fits item.1 item.2 entry ?_ ?_)
    · exact (items_of perm item).mp ⟨run, member, List.mem_of_getElem? here⟩
    · rw [placed run member place item here, stands]
  · intro fits
    refine ⟨length, ?_⟩
    intro index call entry found stands
    obtain ⟨run, member, inside⟩ := (items_of perm (index, call)).mpr found
    obtain ⟨place, here⟩ := List.mem_iff_getElem?.mp inside
    rw [placed run member place _ here] at stands
    refine (right run member place (index, call) here entry).mpr
      ((fits run member).2 place call entry ?_ stands)
    rw [List.getElem?_map, here]
    rfl

theorem place_eq (groups : runs.map (fun run => (run.capability, run.items)) =
    (grouped capability calls).entries) :
    runBatch.place calls (grouped capability calls).entries (runs.map (·.output)) =
      placeAll (runs.flatMap fun run => (run.items.map Prod.fst).zip run.output)
        (List.replicate calls.length (.value none)) := by
  rw [runBatch.place, ← groups, List.zip_map', List.foldl_map]
  exact (List.foldl_flatMap ..).symm

theorem place_placed (groups : runs.map (fun run => (run.capability, run.items)) =
      (grouped capability calls).entries)
    (whole : ∀ run ∈ runs, run.output.length = run.items.length) :
    (runBatch.place calls (grouped capability calls).entries (runs.map (·.output))).length =
      calls.length ∧
    Placed runs (runBatch.place calls (grouped capability calls).entries (runs.map (·.output))) := by
  have perm := runs_perm groups
  rw [place_eq groups]
  refine ⟨by rw [length_placeAll, List.length_replicate], ?_⟩
  have indices : (runs.flatMap fun run => (run.items.map Prod.fst).zip run.output).map Prod.fst =
      (runs.flatMap (·.items)).map Prod.fst := by
    rw [List.map_flatMap, List.map_flatMap]
    apply List.flatMap_congr
    intro run member
    apply List.map_fst_zip
    rw [List.length_map, whole run member]
  intro run member place item here
  have bound : place < run.output.length := by
    rw [whole run member]
    exact (List.getElem?_eq_some_iff.mp here).1
  have inside : item.1 < calls.length :=
    (List.getElem?_eq_some_iff.mp ((items_of perm item).mp
      ⟨run, member, List.mem_of_getElem? here⟩)).1
  have found := placeAll_at (runs.flatMap fun run => (run.items.map Prod.fst).zip run.output)
    (List.replicate calls.length (.value none)) (indices ▸ indices_distinct perm)
    (item.1, run.output[place]) ?_ (by rw [List.length_replicate]; exact inside)
  · exact found.trans (List.getElem?_eq_getElem bound).symm
  · refine List.mem_flatMap.mpr ⟨run, member, ?_⟩
    apply List.mem_of_getElem?
    rw [List.getElem?_zip_eq_some (i := place)]
    refine ⟨?_, List.getElem?_eq_getElem bound⟩
    rw [List.getElem?_map, here]
    rfl

theorem single_placed (run : GroupRun Params Value)
    (groups : (grouped capability calls).entries = [(run.capability, run.items)]) :
    run.items = calls.zipIdx.map Prod.swap := by
  have part := grouped_sublist capability calls (run.capability, run.items) (by
    rw [groups]
    exact .head _)
  apply part.eq_of_length
  have perm := grouped_perm capability calls
  rw [groups, List.flatMap_singleton] at perm
  exact perm.length_eq

/-- Whatever list `_run_batch` returns puts every group's entries in their places. -/
theorem runBatch_placed (groups : runs.map (fun run => (run.capability, run.items)) =
      (grouped capability calls).entries)
    (whole : ∀ run ∈ runs, run.output.length = run.items.length) (stopOnError : Bool)
    (output : List (Entry Value))
    (returned : runBatch capability calls stopOnError (runs.map (·.output)) = .ok output) :
    output.length = calls.length ∧ Placed runs output := by
  have many := place_placed groups whole
  unfold runBatch at returned
  split at returned
  · rename_i group only single results
    cases returned
    rw [single] at groups
    obtain ⟨run, rfl, rfl⟩ := List.map_eq_singleton_iff.mp groups
    obtain rfl : run.output = output := by simpa using results
    have inOrder := single_placed run single
    refine ⟨by rw [whole run (.head _), inOrder]; simp, ?_⟩
    intro other member place item here
    obtain rfl := List.mem_singleton.mp member
    rw [inOrder, List.getElem?_map] at here
    obtain ⟨⟨call, index⟩, found, rfl⟩ := Option.map_eq_some_iff.mp here
    obtain rfl : index = place := by
      rw [List.getElem?_zipIdx] at found
      obtain ⟨_, _, same⟩ := Option.map_eq_some_iff.mp found
      have := congrArg Prod.snd same
      simpa using this.symm
    rfl
  · split at returned
    · split at returned
      · cases returned
      · cases returned
        exact many
    · cases returned
      exact many

end Groups

theorem validateItem_filled (routing : Routing) (source : String) (object : RawItem Value)
    (requestId : Int) (method : String) (allowRevert : Bool) (filled : object.result ≠ some none) :
    validateItem routing source (some object) requestId method allowRevert ≠ .value none := by
  intro null
  unfold validateItem at null
  split at null
  · cases null
  · rename_i found
    obtain ⟨same, _⟩ := Option.filter_eq_some_iff.mp found
    cases same
    split at null
    · split at null
      · cases null
      · split at null <;> cases null
    · split at null
      · cases null
      · rename_i result held
        split at null
        · cases null
        · cases null
          exact filled held

theorem filled_meets (routing : Routing) (state : State Params Value) (first : Int)
    (raw : List (RawItem Value)) (filled : ∀ object ∈ raw, object.result ≠ some none) :
    nullsToLookups routing state (.post (.replied first raw)) := by
  intro turn _ chunk _ offset item _ _ entry member
  obtain ⟨object, inside, rfl⟩ := List.mem_map.mp member
  exact validateItem_filled routing turn.source object _ _ _
    (filled object (List.mem_of_mem_filter inside))

/-! ### A burst that is throttled in part

The source answers the first call of a burst and throttles the second, so both are
asked again, one by one. If the first post then fails, the answer is gone. -/

def burstCalls : List (Call Nat) := [⟨"eth_call", 0⟩, ⟨"eth_call", 1⟩]

def burstRouting : Routing := ⟨"state", false, "RpcError", true⟩

def burstOpening : State Nat Nat := opening burstRouting burstCalls ["one"] true

def burstReply : List (RawItem Nat) :=
  [⟨some 1, none, some (some 7)⟩,
    ⟨some 2, some ⟨true, some (-32005), "limit exceeded", "limit exceeded"⟩, none⟩]

def brokenActions : List (Action Nat) :=
  [.source true 100, .post (.replied 1 burstReply),
    .post (.raised ⟨"one transport: ConnectionError", none⟩), .finish]

def repeatedActions : List (Action Nat) :=
  [.source true 100, .post (.replied 1 burstReply),
    .post (.replied 3 [⟨some 3, none, some (some 7)⟩]),
    .post (.replied 4 [⟨some 4, none, some (some 9)⟩]), .finish]

theorem brokenActions_taken :
    ((batchRuns burstRouting burstCalls).run burstOpening brokenActions).isSome := by
  decide

theorem repeatedActions_taken :
    ((batchRuns burstRouting burstCalls).run burstOpening repeatedActions).isSome := by
  decide

def brokenState : State Nat Nat :=
  ((batchRuns burstRouting burstCalls).run burstOpening brokenActions).get brokenActions_taken

def repeatedState : State Nat Nat :=
  ((batchRuns burstRouting burstCalls).run burstOpening repeatedActions).get repeatedActions_taken

def burstRun (state : State Nat Nat) : GroupRun Nat Nat :=
  ⟨"state", [(0, ⟨"eth_call", 0⟩), (1, ⟨"eth_call", 1⟩)], state, state.returned.getD []⟩

theorem burst_grouped :
    (grouped (fun _ => "state") burstCalls).entries =
      [("state", [(0, ⟨"eth_call", 0⟩), (1, ⟨"eth_call", 1⟩)])] := by decide

theorem burstReply_filled : ∀ object ∈ burstReply, object.result ≠ some none := by decide

theorem burstRun_ended (state : State Nat Nat) (actions : List (Action Nat))
    (met : (batchRuns burstRouting burstCalls).runMeets (nullsToLookups burstRouting) burstOpening
      actions)
    (ran : (batchRuns burstRouting burstCalls).run burstOpening actions = some state)
    (returned : state.returned.isSome) : (burstRun state).Ended burstRouting := by
  constructor
  · exact System.Reaches.run burstOpening state actions (.start _ ⟨["one"], true, rfl⟩) met ran
  · obtain ⟨output, held⟩ := Option.isSome_iff_exists.mp returned
    show state.returned = some (state.returned.getD [])
    rw [held]
    rfl

theorem brokenState_ended : (burstRun brokenState).Ended burstRouting := by
  refine burstRun_ended brokenState brokenActions ?_ (Option.some_get brokenActions_taken).symm
    (by decide)
  refine ⟨trivial, fun _ _ => ⟨filled_meets _ _ _ _ burstReply_filled, fun _ _ => ?_⟩⟩
  exact ⟨trivial, fun _ _ => ⟨trivial, fun _ _ => trivial⟩⟩

theorem repeatedState_ended : (burstRun repeatedState).Ended burstRouting := by
  refine burstRun_ended repeatedState repeatedActions ?_
    (Option.some_get repeatedActions_taken).symm (by decide)
  refine ⟨trivial, fun _ _ => ⟨filled_meets _ _ _ _ burstReply_filled, fun _ _ => ?_⟩⟩
  refine ⟨filled_meets _ _ _ _ (by decide), fun _ _ => ?_⟩
  exact ⟨filled_meets _ _ _ _ (by decide), fun _ _ => ⟨trivial, fun _ _ => trivial⟩⟩

theorem runBatch_burst (state : State Nat Nat) :
    runBatch (fun _ => "state") burstCalls false ([burstRun state].map (·.output)) =
      .ok (burstRun state).output := by
  unfold runBatch
  rw [burst_grouped]
  rfl

end RhPools.MixedBatch
