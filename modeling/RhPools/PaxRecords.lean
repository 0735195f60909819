import Mathlib.Data.List.TakeWhile
import Mathlib.Data.Nat.Digits.Lemmas
import RhPools.BigEndian

/-! The records of an extended header: each is its own length in decimal, a blank, a keyword,
an equals sign, a value and a newline. -/

namespace RhPools.PaxRecords
open BigEndian (Bytes)

def isDigit (byte : UInt8) : Bool := 0x30 ≤ byte && byte ≤ 0x39

/-- `bytes.isdigit`. -/
def isdigit (text : Bytes) : Bool := !text.isEmpty && text.all isDigit

/-- `int` of a text of digits. -/
def decimal (text : Bytes) : Nat :=
  text.foldl (fun value byte => 10 * value + (byte.toNat - 0x30)) 0

abbrev Fields := List (Bytes × Bytes)

def SIZE : Bytes := [0x73, 0x69, 0x7A, 0x65]
def MTIME : Bytes := [0x6D, 0x74, 0x69, 0x6D, 0x65]
def ATIME : Bytes := [0x61, 0x74, 0x69, 0x6D, 0x65]
def CTIME : Bytes := [0x63, 0x74, 0x69, 0x6D, 0x65]

def readRecord (data : Bytes) (extended : Fields) :
    Except String ((Bytes × Bytes) × Bytes) :=
  let length := data.takeWhile (· ≠ 0x20)
  let separator := length.length
  if 0x20 ∉ data ∨ ¬isdigit length then .error "invalid archive extension length"
  else
    let stop := decimal length
    if stop > data.length ∨ stop ≤ separator + 1 ∨ (data.drop (stop - 1)).head? ≠ some 0x0A then
      .error "invalid archive extension record"
    else
      let field := (data.take (stop - 1)).drop (separator + 1)
      let key := field.takeWhile (· ≠ 0x3D)
      if 0x3D ∉ field ∨ key ∉ [SIZE, MTIME, ATIME, CTIME] ∨ key ∈ extended.map Prod.fst then
        .error "unsupported archive extension field"
      else .ok ((key, field.drop (key.length + 1)), data.drop stop)

structure Record where
  length : Bytes
  key : Bytes
  value : Bytes

def Record.bytes (record : Record) : Bytes :=
  record.length ++ 0x20 :: (record.key ++ 0x3D :: (record.value ++ [0x0A]))

def Record.field (record : Record) : Bytes × Bytes := (record.key, record.value)

structure Record.Valid (record : Record) : Prop where
  digits : isdigit record.length
  counts : decimal record.length = record.bytes.length
  known : record.key ∈ [SIZE, MTIME, ATIME, CTIME]

theorem takeWhile_upTo (front rest : Bytes) (mark : UInt8) (before : mark ∉ front) :
    (front ++ mark :: rest).takeWhile (· ≠ mark) = front := by
  rw [List.takeWhile_append_of_pos]
  · simp
  · intro byte member
    simpa using fun same : byte = mark => before (same ▸ member)

theorem split_upTo (text : Bytes) (mark : UInt8) (inside : mark ∈ text) :
    text = text.takeWhile (· ≠ mark) ++
      mark :: text.drop ((text.takeWhile (· ≠ mark)).length + 1) := by
  induction text with
  | nil => cases inside
  | cons byte rest ih =>
    by_cases same : byte = mark
    · rw [same, List.takeWhile_cons_of_neg (by simp)]
      rfl
    · have later : mark ∈ rest := (List.mem_cons.mp inside).resolve_left fun here => same here.symm
      rw [List.takeWhile_cons_of_pos (by simpa using same), List.length_cons, List.drop_succ_cons,
        List.cons_append, ← ih later]

theorem not_mem_digits (text : Bytes) (digits : isdigit text) (mark : UInt8)
    (other : isDigit mark = false) : mark ∉ text := by
  intro member
  rw [isdigit, Bool.and_eq_true, List.all_eq_true] at digits
  rw [digits.2 mark member] at other
  cases other

theorem not_mem_known (key : Bytes) (known : key ∈ [SIZE, MTIME, ATIME, CTIME]) : 0x3D ∉ key := by
  revert key
  decide

theorem framed (data : Bytes) (start stop : Nat) (mark : UInt8) (order : start < stop)
    (marked : (data.drop (stop - 1)).head? = some mark) :
    data = data.take start ++ ((data.take (stop - 1)).drop start ++ mark :: data.drop stop) := by
  have last : data.drop (stop - 1) = mark :: data.drop stop := by
    cases tail : data.drop (stop - 1) with
    | nil => rw [tail] at marked; cases marked
    | cons byte rest =>
      rw [tail] at marked
      cases marked
      have behind := congrArg (List.drop 1) tail
      rw [List.drop_drop, Nat.sub_add_cancel (by omega)] at behind
      rw [behind]
      rfl
  have front : data.take (stop - 1) = data.take start ++ (data.take (stop - 1)).drop start := by
    conv_lhs => rw [← List.take_append_drop start (data.take (stop - 1))]
    rw [List.take_take, Nat.min_eq_left (by omega)]
  calc data = data.take (stop - 1) ++ data.drop (stop - 1) := (List.take_append_drop _ _).symm
    _ = _ := by rw [last]; conv_lhs => rw [front, List.append_assoc]

theorem readRecord_iff (data rest : Bytes) (extended : Fields) (field : Bytes × Bytes) :
    readRecord data extended = .ok (field, rest) ↔
      ∃ record : Record, record.Valid ∧ field = record.field ∧ data = record.bytes ++ rest ∧
        record.key ∉ extended.map Prod.fst := by
  constructor
  · intro read
    unfold readRecord at read
    dsimp only at read
    split at read
    · cases read
    · rename_i led
      obtain ⟨blank, digits⟩ := not_or.mp led
      rw [not_not] at blank digits
      split at read
      · cases read
      · rename_i outside
        obtain ⟨inside, outside⟩ := not_or.mp outside
        obtain ⟨long, newline⟩ := not_or.mp outside
        split at read
        · cases read
        · rename_i keyed
          obtain ⟨equals, keyed⟩ := not_or.mp keyed
          obtain ⟨known, fresh⟩ := not_or.mp keyed
          rw [not_not] at newline equals known
          cases read
          have split := split_upTo data 0x20 blank
          generalize data.takeWhile (· ≠ 0x20) = length at *
          have whole := framed data (length.length + 1) _ 0x0A (by omega) newline
          have front : data.take (length.length + 1) = length ++ [0x20] := by
            rw [split, List.take_append]
            simp
          have parts := split_upTo _ 0x3D equals
          generalize (data.take (decimal length - 1)).drop (length.length + 1) = field' at *
          have laid : data = (Record.mk length (field'.takeWhile (· ≠ 0x3D))
              (field'.drop ((field'.takeWhile (· ≠ 0x3D)).length + 1))).bytes ++
                data.drop (decimal length) := by
            conv_lhs => rw [whole, front, parts]
            simp [Record.bytes]
          refine ⟨_, ⟨digits, ?_, known⟩, rfl, laid, fresh⟩
          have long := congrArg List.length laid
          rw [List.length_append, List.length_drop] at long
          dsimp only
          omega
  · rintro ⟨record, valid, rfl, rfl, fresh⟩
    have shown : (record.bytes ++ rest).takeWhile (· ≠ 0x20) = record.length := by
      rw [Record.bytes, List.append_assoc, List.cons_append,
        takeWhile_upTo _ _ _ (not_mem_digits record.length valid.digits 0x20 (by decide))]
    set front := record.length ++ [0x20] with isFront
    set middle := record.key ++ 0x3D :: record.value with isMiddle
    have laid : record.bytes ++ rest = front ++ middle ++ 0x0A :: rest := by
      simp [Record.bytes, isFront, isMiddle]
    have long : record.bytes.length = (front ++ middle).length + 1 := by
      simp [Record.bytes, isFront, isMiddle]
      omega
    have width : front.length = record.length.length + 1 := by simp [isFront]
    have filled : 1 ≤ middle.length := by
      rw [isMiddle, List.length_append, List.length_cons]
      omega
    have field : ((record.bytes ++ rest).take (record.bytes.length - 1)).drop
        (record.length.length + 1) = middle := by
      rw [laid, long, Nat.add_sub_cancel, List.take_left, ← width, List.drop_left]
    have newline : ((record.bytes ++ rest).drop (record.bytes.length - 1)).head? = some 0x0A := by
      rw [laid, long, Nat.add_sub_cancel, List.drop_left]
      rfl
    have blank : 0x20 ∈ record.bytes ++ rest := by simp [laid, isFront]
    have key : middle.takeWhile (· ≠ 0x3D) = record.key :=
      takeWhile_upTo _ _ _ (not_mem_known record.key valid.known)
    have equals : 0x3D ∈ middle := by simp [isMiddle]
    unfold readRecord
    dsimp only
    rw [shown, valid.counts, field, key, if_neg, if_neg, if_neg]
    · rw [List.drop_left, isMiddle]
      simp [Record.field]
    · simp only [equals, valid.known, fresh, not_true, or_self, not_false_eq_true]
    · rw [List.length_append] at long
      simp only [newline, ne_eq, not_true, or_false, List.length_append]
      omega
    · simp only [blank, valid.digits, not_true, or_self, not_false_eq_true]

/-- `extended` after the loop. -/
def readRecords (data : Bytes) (extended : Fields) : Except String Fields :=
  if data = [] then .ok extended
  else match _ : readRecord data extended with
    | .error failure => .error failure
    | .ok (field, rest) => readRecords rest (extended ++ [field])
termination_by data.length
decreasing_by
  rename_i read
  obtain ⟨record, -, -, rfl, -⟩ := (readRecord_iff _ _ _ _).mp read
  simp [Record.bytes]
  omega

def Lists (data : Bytes) (extended fields : Fields) : Prop :=
  ∃ records : List Record, (∀ record ∈ records, record.Valid) ∧
    data = records.flatMap Record.bytes ∧ fields = extended ++ records.map Record.field ∧
    (records.map Record.key).Nodup ∧ ∀ record ∈ records, record.key ∉ extended.map Prod.fst

theorem lists_step (data : Bytes) (extended fields : Fields) (filled : data ≠ []) :
    Lists data extended fields ↔ ∃ field rest, readRecord data extended = .ok (field, rest) ∧
      Lists rest (extended ++ [field]) fields := by
  constructor
  · rintro ⟨records, valid, rfl, rfl, once, fresh⟩
    cases records with
    | nil => exact absurd rfl filled
    | cons record rest =>
      refine ⟨record.field, rest.flatMap Record.bytes, (readRecord_iff _ _ _ _).mpr
        ⟨record, valid record List.mem_cons_self, rfl, rfl, fresh record List.mem_cons_self⟩,
        rest, fun other member => valid other (List.mem_cons_of_mem _ member), rfl, ?_, ?_, ?_⟩
      · rw [List.map_cons, List.append_assoc, List.singleton_append]
      · exact (List.nodup_cons.mp once).2
      · intro other member
        rw [List.map_append, List.mem_append, not_or]
        refine ⟨fresh other (List.mem_cons_of_mem _ member), fun same => ?_⟩
        have key : other.key = record.key := List.mem_singleton.mp same
        exact (List.nodup_cons.mp once).1 (key ▸ List.mem_map_of_mem member)
  · rintro ⟨field, rest, read, records, valid, rfl, rfl, once, fresh⟩
    obtain ⟨record, right, rfl, rfl, new⟩ := (readRecord_iff _ _ _ _).mp read
    refine ⟨record :: records, List.forall_mem_cons.mpr ⟨right, valid⟩, rfl, ?_, ?_,
      List.forall_mem_cons.mpr ⟨new, fun other member => ?_⟩⟩
    · rw [List.map_cons, List.append_assoc, List.singleton_append]
    · refine List.nodup_cons.mpr ⟨fun again => ?_, once⟩
      obtain ⟨other, member, same⟩ := List.mem_map.mp again
      refine fresh other member ?_
      rw [List.map_append, List.mem_append]
      exact .inr (List.mem_singleton.mpr same)
    · have apart := fresh other member
      rw [List.map_append, List.mem_append, not_or] at apart
      exact apart.1

theorem readRecords_step (data : Bytes) (extended : Fields) (filled : data ≠ []) :
    readRecords data extended = (readRecord data extended).bind fun step =>
      readRecords step.2 (extended ++ [step.1]) := by
  rw [readRecords, if_neg filled]
  split
  · rename_i read
    rw [read]
    rfl
  · rename_i read
    rw [read]
    rfl

theorem readRecords_iff (data : Bytes) (extended fields : Fields) :
    readRecords data extended = .ok fields ↔ Lists data extended fields := by
  induction data, extended using readRecords.induct with
  | case1 extended =>
    rw [readRecords, if_pos rfl]
    constructor
    · rintro ⟨⟩
      exact ⟨[], by simp⟩
    · rintro ⟨records, -, empty, rfl, -, -⟩
      cases records with
      | nil => rw [List.map_nil, List.append_nil]
      | cons record rest => simp [Record.bytes] at empty
  | case2 data extended filled failure read =>
    rw [readRecords_step _ _ filled, lists_step _ _ _ filled, read]
    constructor
    · rintro ⟨⟩
    · rintro ⟨field, rest, ⟨⟩, -⟩
  | case3 data extended filled field rest read ih =>
    rw [readRecords_step _ _ filled, lists_step _ _ _ filled, read]
    constructor
    · exact fun done => ⟨field, rest, rfl, ih.mp done⟩
    · rintro ⟨field, rest, ⟨⟩, lists⟩
      exact ih.mpr lists

/-- `str` of a number. -/
def digitsOf (value : Nat) : Bytes :=
  if value = 0 then [0x30]
  else (Nat.digits 10 value).reverse.map fun digit => UInt8.ofNat (0x30 + digit)

def recordLength (rest : Nat) : Nat → Nat → Option Nat
  | 0, _ => none
  | fuel + 1, guess =>
    let length := rest + (digitsOf guess).length
    if length = guess then some guess else recordLength rest fuel length

def paxRecord (keyword value : Bytes) : Option Bytes :=
  let rest := keyword.length + value.length + 3
  (recordLength rest rest 0).map fun length => (Record.mk (digitsOf length) keyword value).bytes

theorem digit_byte (digit : Nat) (small : digit < 10) :
    (UInt8.ofNat (0x30 + digit)).toNat - 0x30 = digit ∧
      isDigit (UInt8.ofNat (0x30 + digit)) = true := by
  interval_cases digit <;> decide

theorem decimal_reversed (digits : List Nat) (small : ∀ digit ∈ digits, digit < 10) :
    decimal (digits.reverse.map fun digit => UInt8.ofNat (0x30 + digit)) =
      Nat.ofDigits 10 digits := by
  induction digits with
  | nil => rfl
  | cons digit rest ih =>
    rw [List.forall_mem_cons] at small
    rw [decimal, List.reverse_cons, List.map_append, List.foldl_append, ← decimal, ih small.2,
      Nat.ofDigits_cons]
    have own := (digit_byte digit small.1).1
    rw [List.map_singleton, List.foldl_cons, List.foldl_nil, own]
    omega

theorem decimal_digitsOf (value : Nat) : decimal (digitsOf value) = value := by
  unfold digitsOf
  split
  · rename_i zero
    rw [zero]
    rfl
  · rw [decimal_reversed _ fun digit member => Nat.digits_lt_base (by decide) member,
      Nat.ofDigits_digits]

theorem isdigit_digitsOf (value : Nat) : isdigit (digitsOf value) = true := by
  unfold digitsOf
  split
  · rfl
  · rename_i positive
    rw [isdigit, Bool.and_eq_true, List.all_eq_true]
    constructor
    · simpa using Nat.digits_ne_nil_iff_ne_zero.mpr positive
    · intro byte member
      obtain ⟨digit, inside, rfl⟩ := List.mem_map.mp member
      exact (digit_byte digit (Nat.digits_lt_base (by decide) (List.mem_reverse.mp inside))).2

theorem length_digitsOf (value places : Nat) (low : 10 ^ places ≤ value)
    (high : value < 10 ^ (places + 1)) : (digitsOf value).length = places + 1 := by
  have positive : value ≠ 0 := (Nat.lt_of_lt_of_le (Nat.pow_pos (by decide)) low).ne'
  rw [digitsOf, if_neg positive, List.length_map, List.length_reverse,
    Nat.length_digits 10 value (by decide) positive,
    Nat.log_eq_of_pow_le_of_lt_pow low high]

theorem paxRecord_number (keyword : Bytes) (value places : Nat)
    (known : keyword ∈ [SIZE, MTIME, ATIME, CTIME]) (low : 10 ^ (places + 1) ≤ value)
    (high : value < 10 ^ (places + 2)) (few : places ≤ 80) :
    ∃ record : Record, paxRecord keyword (digitsOf value) = some record.bytes ∧ record.Valid ∧
      record.field = (keyword, digitsOf value) ∧ record.bytes.length ≤ 99 := by
  have long := length_digitsOf value (places + 1) low high
  have short : 4 ≤ keyword.length ∧ keyword.length ≤ 5 := by
    revert keyword
    decide
  set rest := keyword.length + (digitsOf value).length + 3 with isRest
  have two : ∀ length, 10 ≤ length → length < 100 → (digitsOf length).length = 2 :=
    fun length ten hundred => length_digitsOf length 1 ten hundred
  have found : recordLength rest rest 0 = some (rest + 2) := by
    have turns : ∀ fuel, recordLength rest (fuel + 3) 0 = some (rest + 2) := by
      intro fuel
      have one : (digitsOf 0).length = 1 := rfl
      simp only [recordLength, one, two (rest + 1) (by omega) (by omega),
        two (rest + 2) (by omega) (by omega)]
      rw [if_neg (by omega), if_neg (by omega), if_pos trivial]
    obtain ⟨fuel, more⟩ : ∃ fuel, rest = fuel + 3 := ⟨rest - 3, by omega⟩
    exact more ▸ turns fuel
  have total : (Record.mk (digitsOf (rest + 2)) keyword (digitsOf value)).bytes.length =
      rest + 2 := by
    simp only [Record.bytes, List.length_append, List.length_cons, List.length_nil,
      two (rest + 2) (by omega) (by omega)]
    omega
  refine ⟨⟨digitsOf (rest + 2), keyword, digitsOf value⟩, ?_, ⟨isdigit_digitsOf (rest + 2), ?_, known⟩, rfl,
    ?_⟩
  · rw [paxRecord, ← isRest, found]
    rfl
  · rw [decimal_digitsOf, total]
  · rw [total]
    omega

end RhPools.PaxRecords
