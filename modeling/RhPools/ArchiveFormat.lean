import RhPools.ArchiveReader
import RhPools.EventWords

/-! The format of a backup archive: two members, each behind an extended header if it has one,
and zeros at the end. The reader takes the streams of the format and no others. -/

namespace RhPools.ArchiveFormat
open BigEndian (Bytes)
open TarHeaders PaxRecords ArchiveReader

/-- An extended header with its data. The reader does not look at what fills the last block;
`filling` says what may stand there. -/
def Extends (filling : Bytes → Prop) (block : Bytes) (fields : Fields) : Prop :=
  ∃ header member data filler, block = header ++ (data ++ filler) ∧ header.length = 512 ∧
    frombuf header = .ok member ∧ member.type = XHDTYPE ∧ member.size = data.length ∧
    0 < data.length ∧ data.length ≤ 4096 ∧ Lists data [] fields ∧
    filler.length = padding data.length ∧ filling filler

def Leads (filling : Bytes → Prop) : Option Fields → Bytes → Prop
  | none, block => block = []
  | some fields, block => Extends filling block fields

def Packs (extended : Option Fields) (name body block : Bytes) : Prop :=
  ∃ header member, block = header ++ (body ++ zeros (padding body.length)) ∧
    header.length = 512 ∧ frombuf header = .ok member ∧ member.type ∈ [REGTYPE, AREGTYPE] ∧
    member.name = name ∧ sizeOf extended member = .ok (body.length : Int)

def Member (filling : Bytes → Prop) (name body block : Bytes) : Prop :=
  ∃ extended lead packed, block = lead ++ packed ∧ Leads filling extended lead ∧
    Packs extended name body packed

variable {Document Digest : Type} [DecidableEq Document] (manifests : Manifests Document Digest)
  (manifest : Document)

def Holds (name body target after : Bytes) : Prop :=
  name = DATABASE ∧ body.length = manifests.bytes manifest ∧ after = target ++ body ∨
    name = MANIFEST ∧ 0 < body.length ∧ body.length ≤ 1024 ^ 2 ∧
      manifests.loads body = some manifest ∧ after = target

theorem database_manifest : DATABASE ≠ MANIFEST := by decide

theorem frombuf_zeros (member : TarInfo) : frombuf (zeros 512) ≠ .ok member := by
  rw [frombuf, length_zeros, if_neg (by decide), if_neg fun other => other rfl, if_pos rfl]
  rintro ⟨⟩

theorem any_iff (filler : Bytes) : filler.any (· ≠ 0) = false ↔ filler = zeros filler.length := by
  simp [zeros, List.eq_replicate_iff]

theorem zeros_append (first second : Nat) : zeros first ++ zeros second = zeros (first + second) :=
  List.replicate_append_replicate

theorem rounded (size : Nat) : (size + 511) / 512 * 512 = size + padding size := by
  unfold padding
  omega

theorem readExtension_iff (reader : Reader) (member : TarInfo) (stream : Bytes) (next : Turn) :
    readExtension reader member stream = .ok next ↔ reader.extended = none ∧
      ∃ data filler rest fields, stream = data ++ filler ++ rest ∧ member.size = data.length ∧
        0 < data.length ∧ data.length ≤ 4096 ∧ Lists data [] fields ∧
        filler.length = padding data.length ∧
        next = .again { reader with stream := rest, extended := some fields } := by
  unfold readExtension
  constructor
  · intro read
    split at read
    · cases read
    · rename_i sized
      obtain ⟨single, sized⟩ := not_or.mp sized
      rw [not_not] at sized
      obtain ⟨⟨block, rest⟩, taken, stored⟩ := (EventWords.bind_ok _ _ _).mp read
      obtain ⟨rfl, long⟩ := (take_iff _ _ _ _).mp taken
      rw [rounded] at long
      dsimp only at stored
      split at stored
      · cases stored
      · rename_i fields listed
        cases stored
        have whole : (block.take member.size.toNat).length = member.size.toNat := by
          rw [List.length_take]
          omega
        refine ⟨by simpa using single, block.take member.size.toNat, block.drop member.size.toNat,
          rest, fields, by rw [List.take_append_drop], ?_, ?_, ?_,
          (readRecords_iff _ _ _).mp listed, ?_, rfl⟩
        · rw [whole, Int.toNat_of_nonneg sized.1.le]
        · omega
        · omega
        · rw [whole, List.length_drop]
          omega
  · rintro ⟨single, data, filler, rest, fields, rfl, size, some, few, lists, fills, rfl⟩
    have count : member.size.toNat = data.length := by omega
    rw [if_neg (by simp [single, size]; omega), EventWords.bind_ok]
    refine ⟨(data ++ filler, rest), (take_iff _ _ _ _).mpr ⟨rfl, ?_⟩, ?_⟩
    · rw [rounded, List.length_append, count, fills]
    · dsimp only
      rw [count, List.take_left, (readRecords_iff _ _ _).mpr lists]
      rfl

theorem readContent_iff (reader : Reader) (name stream rest after : Bytes) (size : Int)
    (known : name ∈ [DATABASE, MANIFEST]) :
    readContent manifests manifest reader name stream size = .ok (rest, after) ↔
      ∃ body, stream = body ++ rest ∧ size = body.length ∧
        Holds manifests manifest name body reader.target after := by
  unfold readContent Holds
  by_cases database : name = DATABASE
  · have other : name ≠ MANIFEST := database ▸ database_manifest
    rw [if_pos database]
    constructor
    · intro read
      split at read
      · cases read
      · rename_i sized
        obtain ⟨body, rfl, long, rfl⟩ := (copyBytes_iff _ _ _ _ _).mp read
        exact ⟨body, rfl, by omega, .inl ⟨database, by omega, rfl⟩⟩
    · rintro ⟨body, rfl, rfl, ⟨-, sized, rfl⟩ | ⟨absurd, -⟩⟩
      · rw [if_neg (by simp [sized])]
        exact (copyBytes_iff _ _ _ _ _).mpr ⟨body, rfl, rfl, rfl⟩
      · exact (other absurd).elim
  · have same : name = MANIFEST := by simpa [database] using known
    rw [if_neg database]
    constructor
    · intro read
      dsimp only at read
      split at read
      · cases read
      · rename_i sized
        rw [not_not] at sized
        obtain ⟨⟨data, rest'⟩, taken, compared⟩ := (EventWords.bind_ok _ _ _).mp read
        obtain ⟨rfl, long⟩ := (take_iff _ _ _ _).mp taken
        dsimp only at compared
        split at compared
        · cases compared
        · rename_i document loaded
          split at compared
          · cases compared
          · rename_i equal
            cases compared
            rw [not_not.mp equal] at loaded
            exact ⟨data, rfl, by omega, .inr ⟨same, by omega, by omega, loaded, rfl⟩⟩
    · rintro ⟨body, rfl, rfl, ⟨absurd, -⟩ | ⟨-, some, few, loaded, rfl⟩⟩
      · exact (database absurd).elim
      · dsimp only
        rw [if_neg (by simp; omega), EventWords.bind_ok]
        refine ⟨(body, rest), (take_iff _ _ _ _).mpr ⟨rfl, rfl⟩, ?_⟩
        simp [loaded]

theorem readMember_iff (reader : Reader) (member : TarInfo) (stream : Bytes) (next : Turn) :
    readMember manifests manifest reader member stream = .ok next ↔
      member.type ∈ [REGTYPE, AREGTYPE] ∧ member.name ∉ reader.seen ∧
      ∃ body rest after, stream = body ++ zeros (padding body.length) ++ rest ∧
        sizeOf reader.extended member = .ok (body.length : Int) ∧
        Holds manifests manifest member.name body reader.target after ∧
        next = .again ⟨rest, insert member.name reader.seen, none, after⟩ := by
  unfold readMember
  constructor
  · intro read
    split at read
    · cases read
    · rename_i taken
      obtain ⟨regular, taken⟩ := not_or.mp taken
      obtain ⟨known, fresh⟩ := not_or.mp taken
      rw [not_not] at regular known
      obtain ⟨size, sized, filled⟩ := (EventWords.bind_ok _ _ _).mp read
      obtain ⟨⟨behind, after⟩, content, closed⟩ := (EventWords.bind_ok _ _ _).mp filled
      obtain ⟨body, rfl, rfl, holds⟩ := (readContent_iff _ _ _ _ _ _ _ _ known).mp content
      obtain ⟨⟨filler, rest⟩, padded, stored⟩ := (EventWords.bind_ok _ _ _).mp closed
      obtain ⟨rfl, long⟩ := (take_iff _ _ _ _).mp padded
      dsimp only at stored
      split at stored
      · cases stored
      · rename_i clean
        cases stored
        rw [Bool.not_eq_true, any_iff, long] at clean
        refine ⟨regular, fresh, body, rest, after, ?_, sized, holds, rfl⟩
        rw [List.append_assoc, ← clean]
  · rintro ⟨regular, fresh, body, rest, after, rfl, sized, holds, rfl⟩
    have known : member.name ∈ [DATABASE, MANIFEST] := by
      rcases holds with ⟨database, -⟩ | ⟨manifest, -⟩
      · exact database ▸ List.mem_cons_self
      · exact manifest ▸ List.mem_cons_of_mem _ List.mem_cons_self
    rw [if_neg (by simp only [regular, known, fresh, not_true, or_self, not_false_eq_true]),
      EventWords.bind_ok]
    refine ⟨body.length, sized, ?_⟩
    rw [EventWords.bind_ok]
    refine ⟨(zeros (padding body.length) ++ rest, after),
      (readContent_iff _ _ _ _ _ _ _ _ known).mpr ⟨body, List.append_assoc _ _ _, rfl, holds⟩, ?_⟩
    rw [EventWords.bind_ok]
    refine ⟨(zeros (padding body.length), rest), (take_iff _ _ _ _).mpr ⟨rfl, length_zeros _⟩, ?_⟩
    dsimp only
    rw [if_neg (by rw [Bool.not_eq_true, any_iff, length_zeros])]
    rfl

theorem readEnd_iff (reader : Reader) (stream : Bytes) (next : Turn) :
    readEnd reader stream = .ok next ↔ reader.extended = none ∧
      reader.seen = {DATABASE, MANIFEST} ∧ next = .done reader.target ∧
      ∃ count, 512 ≤ count ∧ count ≤ 512 + 10240 ∧ stream = zeros count := by
  unfold readEnd
  rw [EventWords.bind_ok]
  constructor
  · rintro ⟨⟨second, rest⟩, taken, read⟩
    obtain ⟨rfl, long⟩ := (take_iff _ _ _ _).mp taken
    dsimp only at read
    split at read
    · cases read
    · rename_i complete
      obtain ⟨blank, complete⟩ := not_or.mp complete
      obtain ⟨seen, single⟩ := not_or.mp complete
      rw [not_not] at blank seen
      split at read
      · cases read
      · rename_i beyond
        obtain ⟨short, clean⟩ := not_or.mp beyond
        cases read
        have whole : rest.take 10241 = rest := by
          apply List.take_of_length_le
          rw [List.length_take] at short
          omega
        rw [whole] at short clean
        rw [Bool.not_eq_true, any_iff] at clean
        refine ⟨by simpa using single, seen, rfl, 512 + rest.length, by omega, by omega, ?_⟩
        rw [blank, ← zeros_append, ← clean]
  · rintro ⟨single, seen, rfl, count, long, short, rfl⟩
    refine ⟨(zeros 512, zeros (count - 512)), (take_iff _ _ _ _).mpr ⟨?_, length_zeros _⟩, ?_⟩
    · rw [zeros_append, Nat.add_sub_cancel' long]
    · have clean : (zeros (count - 512)).any (· ≠ 0) = false := by rw [any_iff, length_zeros]
      dsimp only
      rw [List.take_of_length_le (by rw [length_zeros]; omega),
        if_neg (by simp [single, seen]), if_neg (by rw [clean, length_zeros]; simp; omega)]
      rfl

theorem turn_iff (reader : Reader) (next : Turn) :
    turn manifests manifest reader = .ok next ↔
      (∃ block fields rest, reader.extended = none ∧ Extends (fun _ => True) block fields ∧
        reader.stream = block ++ rest ∧
        next = .again { reader with stream := rest, extended := some fields }) ∨
      (∃ name body block rest after, Packs reader.extended name body block ∧
        name ∉ reader.seen ∧ reader.stream = block ++ rest ∧
        Holds manifests manifest name body reader.target after ∧
        next = .again ⟨rest, insert name reader.seen, none, after⟩) ∨
      (reader.extended = none ∧ reader.seen = {DATABASE, MANIFEST} ∧ next = .done reader.target ∧
        ∃ count, 1024 ≤ count ∧ count ≤ 1024 + 10240 ∧ reader.stream = zeros count) := by
  unfold turn
  rw [EventWords.bind_ok]
  constructor
  · rintro ⟨⟨header, stream⟩, taken, read⟩
    obtain ⟨whole, long⟩ := (take_iff _ _ _ _).mp taken
    dsimp only at read
    split at read
    · rename_i blank
      obtain ⟨single, seen, ended, count, least, most, rfl⟩ := (readEnd_iff _ _ _).mp read
      refine .inr (.inr ⟨single, seen, ended, 512 + count, by omega, by omega, ?_⟩)
      rw [whole, blank, zeros_append]
    · split at read
      · cases read
      · cases read
      · rename_i member decoded
        split at read
        · rename_i kind
          obtain ⟨single, data, filler, rest, fields, rfl, size, some, few, lists, fills, rfl⟩ :=
            (readExtension_iff _ _ _ _).mp read
          refine .inl ⟨header ++ (data ++ filler), fields, rest, single, ⟨header, member, data,
            filler, rfl, long, decoded, kind, size, some, few, lists, fills, trivial⟩, ?_, rfl⟩
          simp only [whole, List.append_assoc]
        · obtain ⟨regular, fresh, body, rest, after, rfl, sized, holds, rfl⟩ :=
            (readMember_iff _ _ _ _ _ _).mp read
          refine .inr (.inl ⟨member.name, body, header ++ (body ++ zeros (padding body.length)),
            rest, after, ⟨header, member, rfl, long, decoded, regular, rfl, sized⟩, fresh, ?_,
            holds, rfl⟩)
          simp only [whole, List.append_assoc]
  · rintro (⟨block, fields, rest, single, extends_, whole, rfl⟩ |
      ⟨name, body, block, rest, after, packs, fresh, whole, holds, rfl⟩ |
      ⟨single, seen, rfl, count, least, most, whole⟩)
    · obtain ⟨header, member, data, filler, rfl, long, decoded, kind, size, some, few, lists, fills,
        -⟩ := extends_
      refine ⟨(header, data ++ filler ++ rest), (take_iff _ _ _ _).mpr ⟨?_, long⟩, ?_⟩
      · rw [whole, List.append_assoc]
      · have filled : header ≠ zeros 512 := fun blank => frombuf_zeros member (blank ▸ decoded)
        dsimp only
        rw [if_neg filled, decoded]
        dsimp only
        rw [if_pos kind, readExtension_iff]
        exact ⟨single, data, filler, rest, fields, rfl, size, some, few, lists, fills, rfl⟩
    · obtain ⟨header, member, rfl, long, decoded, regular, rfl, sized⟩ := packs
      refine ⟨(header, body ++ zeros (padding body.length) ++ rest),
        (take_iff _ _ _ _).mpr ⟨?_, long⟩, ?_⟩
      · rw [whole, List.append_assoc]
      · have filled : header ≠ zeros 512 := fun blank => frombuf_zeros member (blank ▸ decoded)
        have kind : member.type ≠ XHDTYPE := by
          rintro same
          rw [same] at regular
          revert regular
          decide
        dsimp only
        rw [if_neg filled, decoded]
        dsimp only
        rw [if_neg kind, readMember_iff]
        exact ⟨regular, fresh, body, rest, after, rfl, sized, holds, rfl⟩
    · refine ⟨(zeros 512, zeros (count - 512)), (take_iff _ _ _ _).mpr ⟨?_, length_zeros _⟩, ?_⟩
      · rw [whole, zeros_append, Nat.add_sub_cancel' (by omega)]
      · dsimp only
        rw [if_pos rfl, readEnd_iff]
        exact ⟨single, seen, rfl, count - 512, by omega, by omega, rfl⟩

theorem turn_shorter (reader next : Reader)
    (turned : turn manifests manifest reader = .ok (.again next)) :
    next.stream.length + 512 ≤ reader.stream.length := by
  rcases (turn_iff _ _ _ _).mp turned with ⟨block, fields, rest, -, extends_, whole, same⟩ |
    ⟨name, body, block, rest, after, packs, -, whole, -, same⟩ | ⟨-, -, ended, -⟩
  · obtain ⟨header, member, data, filler, rfl, long, -⟩ := extends_
    cases same
    simp only [whole, List.length_append]
    omega
  · obtain ⟨header, member, rfl, long, -⟩ := packs
    cases same
    simp only [whole, List.length_append]
    omega
  · cases ended

theorem turns_enough (fuel more : Nat) (reader : Reader)
    (enough : reader.stream.length / 512 < fuel) :
    ∃ outcome, turns manifests manifest fuel reader = some outcome ∧
      turns manifests manifest (fuel + more) reader = some outcome := by
  induction fuel generalizing reader with
  | zero => exact absurd enough (Nat.not_lt_zero _)
  | succ fuel ih =>
    rw [Nat.add_right_comm, turns, turns]
    cases turned : turn manifests manifest reader with
    | error failure => exact ⟨_, rfl, rfl⟩
    | ok next =>
      cases next with
      | done target => exact ⟨_, rfl, rfl⟩
      | again next =>
        have shorter := turn_shorter manifests manifest reader next turned
        exact ih next (by omega)

theorem run_ends (reader : Reader) : ∃ outcome, run manifests manifest reader = some outcome := by
  obtain ⟨outcome, ends, -⟩ := turns_enough manifests manifest _ 0 reader (Nat.lt_succ_self _)
  exact ⟨outcome, ends⟩

theorem run_again (reader next : Reader)
    (turned : turn manifests manifest reader = .ok (.again next)) :
    run manifests manifest reader = run manifests manifest next := by
  have shorter := turn_shorter manifests manifest reader next turned
  obtain ⟨outcome, ends, after⟩ := turns_enough manifests manifest (next.stream.length / 512 + 1)
    (reader.stream.length / 512 - (next.stream.length / 512 + 1)) next (Nat.lt_succ_self _)
  rw [Nat.add_sub_cancel' (by omega)] at after
  rw [run, turns, turned, run, ends]
  exact after

inductive Laid (filling : Bytes → Prop) : Finset Bytes → Bytes → Bytes → Bytes → Prop
  | ends {target : Bytes} (count : Nat) (least : 1024 ≤ count) (most : count ≤ 1024 + 10240) :
      Laid filling {DATABASE, MANIFEST} target (zeros count) target
  | member {seen : Finset Bytes} {target after result rest block : Bytes} (name body : Bytes)
      (fresh : name ∉ seen) (member : Member filling name body block)
      (holds : Holds manifests manifest name body target after)
      (behind : Laid filling (insert name seen) after rest result) :
      Laid filling seen target (block ++ rest) result

theorem run_laid (reader : Reader) (result lead : Bytes)
    (leads : Leads (fun _ => True) reader.extended lead)
    (returns : run manifests manifest reader = some (.ok result)) :
    Laid manifests manifest (fun _ => True) reader.seen reader.target (lead ++ reader.stream)
      result := by
  induction size : reader.stream.length using Nat.strong_induction_on generalizing reader lead with
  | _ size ih =>
    cases turned : turn manifests manifest reader with
    | error failure =>
      rw [run, turns, turned] at returns
      cases returns
    | ok next =>
      rcases (turn_iff _ _ _ _).mp turned with ⟨block, fields, rest, single, extends_, whole, rfl⟩ |
        ⟨name, body, block, rest, after, packs, fresh, whole, holds, rfl⟩ |
        ⟨single, seen, rfl, count, least, most, whole⟩
      · rw [run_again _ _ _ _ turned] at returns
        have shorter := turn_shorter _ _ _ _ turned
        rw [single] at leads
        cases leads
        rw [List.nil_append, whole]
        exact ih rest.length (by dsimp only at shorter; omega)
          { reader with stream := rest, extended := some fields } block extends_ returns rfl
      · rw [run_again _ _ _ _ turned] at returns
        have shorter := turn_shorter _ _ _ _ turned
        have behind := ih rest.length (by dsimp only at shorter; omega)
          ⟨rest, insert name reader.seen, none, after⟩ [] rfl returns rfl
        rw [whole, ← List.append_assoc]
        exact .member name body fresh ⟨_, lead, block, rfl, leads, packs⟩ holds behind
      · rw [run, turns, turned] at returns
        cases returns
        rw [single] at leads
        cases leads
        rw [List.nil_append, whole, seen]
        exact .ends count least most

theorem run_member {name body block target after : Bytes} {seen : Finset Bytes} (rest : Bytes)
    (member : Member (fun _ => True) name body block) (fresh : name ∉ seen)
    (holds : Holds manifests manifest name body target after) :
    run manifests manifest ⟨block ++ rest, seen, none, target⟩ =
      run manifests manifest ⟨rest, insert name seen, none, after⟩ := by
  obtain ⟨extended, lead, packed, rfl, leads, packs⟩ := member
  have packed : run manifests manifest ⟨packed ++ rest, seen, extended, target⟩ =
      run manifests manifest ⟨rest, insert name seen, none, after⟩ :=
    run_again _ _ _ _ ((turn_iff _ _ ⟨packed ++ rest, seen, extended, target⟩ _).mpr
      (.inr (.inl ⟨name, body, packed, rest, after, packs, fresh, rfl, holds, rfl⟩)))
  cases extended with
  | none =>
    cases leads
    exact packed
  | some fields =>
    rw [← packed, List.append_assoc]
    exact run_again _ _ _ _ ((turn_iff _ _ ⟨lead ++ (_ ++ rest), seen, none, target⟩ _).mpr
      (.inl ⟨lead, fields, _, rfl, leads, rfl, rfl⟩))

theorem laid_run {seen : Finset Bytes} {target stream result : Bytes}
    (laid : Laid manifests manifest (fun _ => True) seen target stream result) :
    run manifests manifest ⟨stream, seen, none, target⟩ = some (.ok result) := by
  induction laid with
  | @ends target count least most =>
    have turned := (turn_iff manifests manifest
      ⟨zeros count, {DATABASE, MANIFEST}, none, target⟩ _).mpr
        (.inr (.inr ⟨rfl, rfl, rfl, count, least, most, rfl⟩))
    rw [run, turns, turned]
  | member name body fresh member holds behind ih =>
    exact (run_member manifests manifest _ member fresh holds).trans ih

def Conforms (filling : Bytes → Prop) (stream database : Bytes) : Prop :=
  ∃ document first second count, Member filling DATABASE database first ∧
    Member filling MANIFEST document second ∧
    (stream = first ++ second ++ zeros count ∨ stream = second ++ first ++ zeros count) ∧
    1024 ≤ count ∧ count ≤ 1024 + 10240 ∧ database.length = manifests.bytes manifest ∧
    0 < document.length ∧ document.length ≤ 1024 ^ 2 ∧ manifests.loads document = some manifest

variable {manifests manifest} {filling : Bytes → Prop}

omit [DecidableEq Document] in
theorem Laid.cases_on_seen {seen : Finset Bytes} {target stream result : Bytes}
    (laid : Laid manifests manifest filling seen target stream result) :
    (seen = {DATABASE, MANIFEST} ∧ result = target ∧
      ∃ count, 1024 ≤ count ∧ count ≤ 1024 + 10240 ∧ stream = zeros count) ∨
    ∃ name body block rest after, name ∉ seen ∧ Member filling name body block ∧
      Holds manifests manifest name body target after ∧ stream = block ++ rest ∧
      Laid manifests manifest filling (insert name seen) after rest result := by
  cases laid with
  | ends count least most => exact .inl ⟨rfl, rfl, count, least, most, rfl⟩
  | member name body fresh member holds behind =>
    exact .inr ⟨name, body, _, _, _, fresh, member, holds, rfl, behind⟩

omit [DecidableEq Document] in
theorem Laid.over {target stream result : Bytes}
    (laid : Laid manifests manifest filling {DATABASE, MANIFEST} target stream result) :
    result = target ∧ ∃ count, 1024 ≤ count ∧ count ≤ 1024 + 10240 ∧ stream = zeros count := by
  rcases laid.cases_on_seen with ⟨-, same, ends⟩ | ⟨name, _, _, _, _, fresh, -, holds, -⟩
  · exact ⟨same, ends⟩
  · rcases holds with ⟨rfl, -⟩ | ⟨rfl, -⟩ <;> simp at fresh

omit [DecidableEq Document] in
theorem laid_iff (stream result : Bytes) :
    Laid manifests manifest filling ∅ [] stream result ↔
      Conforms manifests manifest filling stream result := by
  have distinct := database_manifest
  constructor
  · intro laid
    rcases laid.cases_on_seen with ⟨none, -⟩ | ⟨name, body, block, rest, after, -, first, holds,
      rfl, next⟩
    · cases (Finset.insert_ne_empty _ _ none.symm)
    · rcases next.cases_on_seen with ⟨one, -⟩ | ⟨other, body', block', rest', after', fresh, second,
        holds', rfl, last⟩
      · have both : DATABASE ∈ ({name} : Finset Bytes) ∧ MANIFEST ∈ ({name} : Finset Bytes) := by
          rw [← insert_empty_eq, one]
          simp
        simp only [Finset.mem_singleton] at both
        exact (distinct (both.1.trans both.2.symm)).elim
      · rcases holds with ⟨rfl, sized, rfl⟩ | ⟨rfl, some, few, loaded, rfl⟩
        · rcases holds' with ⟨rfl, -⟩ | ⟨rfl, some, few, loaded, rfl⟩
          · simp at fresh
          · rw [insert_empty_eq, Finset.pair_comm] at last
            obtain ⟨rfl, count, least, most, rfl⟩ := last.over
            exact ⟨body', block, block', count, first, second, .inl (List.append_assoc _ _ _).symm,
              least, most, sized, some, few, loaded⟩
        · rcases holds' with ⟨rfl, sized, rfl⟩ | ⟨rfl, -⟩
          · rw [insert_empty_eq] at last
            obtain ⟨rfl, count, least, most, rfl⟩ := last.over
            exact ⟨body, block', block, count, second, first, .inr (List.append_assoc _ _ _).symm,
              least, most, sized, some, few, loaded⟩
          · simp at fresh
  · rintro ⟨document, first, second, count, database, described, order, least, most, sized, some, few,
      loaded⟩
    rcases order with rfl | rfl
    · rw [List.append_assoc]
      refine .member DATABASE result (by simp) database (.inl ⟨rfl, sized, rfl⟩)
        (.member MANIFEST document (by simpa using distinct.symm) described
          (.inr ⟨rfl, some, few, loaded, rfl⟩) ?_)
      rw [insert_empty_eq, Finset.pair_comm]
      exact .ends count least most
    · rw [List.append_assoc]
      refine .member MANIFEST document (by simp) described (.inr ⟨rfl, some, few, loaded, rfl⟩)
        (.member DATABASE result (by simpa using distinct) database (.inl ⟨rfl, sized, rfl⟩) ?_)
      rw [insert_empty_eq]
      exact .ends count least most

theorem archiveRestore_iff (stream database : Bytes) :
    archiveRestore manifests manifest stream = some (.ok database) ↔
      Conforms manifests manifest (fun _ => True) stream database := by
  rw [← laid_iff]
  exact ⟨run_laid manifests manifest _ database [] rfl, laid_run manifests manifest⟩

theorem Member.filled {name body block rest header data filler more : Bytes} {member : TarInfo}
    (packed : Member filling name body block)
    (same : block ++ rest = header ++ (data ++ (filler ++ more))) (long : header.length = 512)
    (decoded : frombuf header = .ok member) (kind : member.type = XHDTYPE)
    (size : member.size = data.length) (fills : filler.length = padding data.length) :
    filling filler := by
  obtain ⟨extended, lead, packed, rfl, leads, own, regular, rfl, width, decodes, plain, -⟩ := packed
  cases extended with
  | none =>
    cases leads
    rw [List.nil_append, List.append_assoc] at same
    obtain ⟨rfl, -⟩ := List.append_inj same (width.trans long.symm)
    rw [decoded] at decodes
    cases decodes
    rw [kind] at plain
    exact ((by decide : XHDTYPE ∉ [REGTYPE, AREGTYPE]) plain).elim
  | some fields =>
    obtain ⟨front, info, data', filler', rfl, width, decodes, -, size', -, -, -, fills', clean⟩ :=
      leads
    simp only [List.append_assoc] at same
    obtain ⟨rfl, behind⟩ := List.append_inj same (width.trans long.symm)
    rw [decoded] at decodes
    cases decodes
    obtain ⟨rfl, last⟩ := List.append_inj behind (by omega)
    obtain ⟨rfl, -⟩ := List.append_inj last (fills'.trans fills.symm)
    exact clean

theorem Member.mono {other : Bytes → Prop} {name body block : Bytes}
    (more : ∀ filler, filling filler → other filler) (member : Member filling name body block) :
    Member other name body block := by
  obtain ⟨extended, lead, packed, rfl, leads, packs⟩ := member
  refine ⟨extended, lead, packed, rfl, ?_, packs⟩
  cases extended with
  | none => exact leads
  | some fields =>
    obtain ⟨header, member, data, filler, rfl, long, decoded, kind, size, some, few, lists, fills,
      clean⟩ := leads
    exact ⟨header, member, data, filler, rfl, long, decoded, kind, size, some, few, lists, fills,
      more filler clean⟩

theorem Packs.read {name body block rest other body' block' rest' : Bytes}
    (packed : Packs none name body block) (member : Member filling other body' block')
    (same : block ++ rest = block' ++ rest') : other = name ∧ body'.length = body.length := by
  obtain ⟨header, own, rfl, long, decoded, regular, rfl, sized⟩ := packed
  obtain ⟨extended, lead, behind, rfl, leads, packs⟩ := member
  cases extended with
  | none =>
    cases leads
    obtain ⟨header', own', rfl, long', decoded', -, rfl, sized'⟩ := packs
    simp only [List.nil_append, List.append_assoc] at same
    obtain ⟨rfl, -⟩ := List.append_inj same (long.trans long'.symm)
    rw [decoded] at decoded'
    cases decoded'
    have lengths := Except.ok.inj (sized.symm.trans sized')
    exact ⟨rfl, by omega⟩
  | some fields =>
    obtain ⟨header', own', data, filler, rfl, long', decoded', kind, -⟩ := leads
    simp only [List.append_assoc] at same
    obtain ⟨rfl, -⟩ := List.append_inj same (long.trans long'.symm)
    rw [decoded] at decoded'
    cases decoded'
    rw [kind] at regular
    exact ((by decide : XHDTYPE ∉ [REGTYPE, AREGTYPE]) regular).elim

end RhPools.ArchiveFormat
