import Mathlib.Data.List.TakeWhile
import Mathlib.Tactic.IntervalCases
import RhPools.BigEndian

/-! Tar headers as `tarfile` reads them with `TarInfo.frombuf` and writes them with
`_create_header`. A decoded text is kept as its bytes. -/

namespace RhPools.TarHeaders
open BigEndian (Bytes ofBytes)

def zeros (count : Nat) : Bytes := List.replicate count 0

@[simp] theorem length_zeros (count : Nat) : (zeros count).length = count :=
  List.length_replicate

/-- `buf[start:stop]`. -/
def slice (buf : Bytes) (start stop : Nat) : Bytes := (buf.drop start).take (stop - start)

def trail (byte : UInt8) : Option (List (UInt8 × UInt8)) :=
  let any := (0x80, 0xBF)
  if byte < 0x80 then some []
  else if byte < 0xC2 then none
  else if byte < 0xE0 then some [any]
  else if byte = 0xE0 then some [(0xA0, 0xBF), any]
  else if byte = 0xED then some [(0x80, 0x9F), any]
  else if byte < 0xF0 then some [any, any]
  else if byte = 0xF0 then some [(0x90, 0xBF), any, any]
  else if byte < 0xF4 then some [any, any, any]
  else if byte = 0xF4 then some [(0x80, 0x8F), any, any]
  else none

def utf8From : List (UInt8 × UInt8) → Bytes → Bool
  | owed, [] => owed.isEmpty
  | [], byte :: rest =>
    match trail byte with
    | some owed => utf8From owed rest
    | none => false
  | (least, greatest) :: owed, byte :: rest =>
    least ≤ byte && byte ≤ greatest && utf8From owed rest

/-- The bytes that `decode("utf-8", "strict")` takes. -/
def utf8 (text : Bytes) : Bool := utf8From [] text

def ascii (text : Bytes) : Bool := text.all (· < 0x80)

def cut (field : Bytes) : Bytes := field.takeWhile (· ≠ 0)

def nts (decodes : Bytes → Bool) (field : Bytes) : Option Bytes :=
  if decodes (cut field) then some (cut field) else none

def isSpace (byte : UInt8) : Bool :=
  byte = 0x20 || 9 ≤ byte && byte ≤ 13 || 0x1C ≤ byte && byte ≤ 0x1F

def strip (text : Bytes) : Bytes :=
  ((text.dropWhile isSpace).reverse.dropWhile isSpace).reverse

/-- The digits of `int(text, 8)`, where single underscores may stand between two of them. -/
def octalDigits : Bool → Nat → Bytes → Option Nat
  | owed, value, [] => if owed then none else some value
  | owed, value, byte :: rest =>
    if byte = 0x5F then if owed then none else octalDigits true value rest
    else if 0x30 ≤ byte ∧ byte ≤ 0x37 then
      octalDigits false (8 * value + (byte.toNat - 0x30)) rest
    else none

/-- A prefix `0o`, and an underscore behind it, may stand before the digits. -/
def unprefixed (text : Bytes) : Bytes :=
  if text.take 2 = [0x30, 0x6F] ∨ text.take 2 = [0x30, 0x4F] then
    if (text.drop 2).head? = some 0x5F then text.drop 3 else text.drop 2
  else text

/-- `int(text, 8)`. -/
def octal (text : Bytes) : Option Int :=
  match text with
  | [] => none
  | sign :: rest =>
    if sign = 0x2D then (octalDigits true 0 (unprefixed rest)).map fun value => -(value : Int)
    else if sign = 0x2B then (octalDigits true 0 (unprefixed rest)).map Int.ofNat
    else (octalDigits true 0 (unprefixed text)).map Int.ofNat

def nti (field : Bytes) : Option Int :=
  match field with
  | [] => none
  | first :: rest =>
    if first = 0x80 then some (ofBytes rest)
    else if first = 0xFF then some (-(256 ^ rest.length - ofBytes rest : Int))
    else (nts ascii field).bind fun text =>
      octal (if (strip text).isEmpty then [0x30] else strip text)

def signed (byte : UInt8) : Int := if byte < 0x80 then byte.toNat else byte.toNat - 256

/-- The bytes that a checksum adds up: all but its own, which count as blanks. -/
def counted (buf : Bytes) : Bytes := slice buf 0 148 ++ slice buf 156 512

def calcChksums (buf : Bytes) : Nat × Int :=
  ((counted buf).foldl (fun sum byte => sum + byte.toNat) 256,
    (counted buf).foldl (fun sum byte => sum + signed byte) 256)

def AREGTYPE : UInt8 := 0
def REGTYPE : UInt8 := 0x30
def DIRTYPE : UInt8 := 0x35
def GNUTYPE_LONGLINK : UInt8 := 0x4B
def GNUTYPE_LONGNAME : UInt8 := 0x4C
def GNUTYPE_SPARSE : UInt8 := 0x53
def XHDTYPE : UInt8 := 0x78

def GNU_TYPES : List UInt8 := [GNUTYPE_LONGNAME, GNUTYPE_LONGLINK, GNUTYPE_SPARSE]

/-- What `frombuf` raises: a `HeaderError`, or the error of a text that is no UTF-8. -/
inductive HeaderFailure where
  | header (text : String)
  | undecodable
  deriving DecidableEq, Repr

structure TarInfo where
  name : Bytes
  mode : Int
  uid : Int
  gid : Int
  size : Int
  mtime : Int
  chksum : Int
  type : UInt8
  linkname : Bytes
  uname : Bytes
  gname : Bytes
  devmajor : Int
  devminor : Int
  deriving DecidableEq, Repr

def number (buf : Bytes) (start stop : Nat) : Except HeaderFailure Int :=
  match nti (slice buf start stop) with
  | some value => .ok value
  | none => .error (.header "invalid header")

def text (buf : Bytes) (start stop : Nat) : Except HeaderFailure Bytes :=
  match nts utf8 (slice buf start stop) with
  | some value => .ok value
  | none => .error .undecodable

def fields (buf : Bytes) (chksum : Int) : Except HeaderFailure (TarInfo × Bytes) := do
  let name ← text buf 0 100
  let mode ← number buf 100 108
  let uid ← number buf 108 116
  let gid ← number buf 116 124
  let size ← number buf 124 136
  let mtime ← number buf 136 148
  let type := (slice buf 156 157).headD 0
  let linkname ← text buf 157 257
  let uname ← text buf 265 297
  let gname ← text buf 297 329
  let devmajor ← number buf 329 337
  let devminor ← number buf 337 345
  let front ← text buf 345 500
  return (⟨name, mode, uid, gid, size, mtime, chksum, type, linkname, uname, gname, devmajor,
    devminor⟩, front)

/-- An old header has a directory as a regular file whose name ends with a slash; directories
lose the slashes at the end; a long name is put together. -/
def named (member : TarInfo) (front : Bytes) : TarInfo :=
  let type :=
    if member.type = AREGTYPE ∧ member.name.getLast? = some 0x2F then DIRTYPE else member.type
  let name := if type = DIRTYPE then (member.name.reverse.dropWhile (· = 0x2F)).reverse
    else member.name
  { member with
    type
    name := if front ≠ [] ∧ type ∉ GNU_TYPES then front ++ 0x2F :: name else name }

def frombuf (buf : Bytes) : Except HeaderFailure TarInfo :=
  if buf.length = 0 then .error (.header "empty header")
  else if buf.length ≠ 512 then .error (.header "truncated header")
  else if buf = zeros 512 then .error (.header "end of file header")
  else do
    let chksum ← number buf 148 156
    if chksum ≠ (calcChksums buf).1 ∧ chksum ≠ (calcChksums buf).2 then
      .error (.header "bad checksum")
    else
      let (member, front) ← fields buf chksum
      if member.type = GNUTYPE_SPARSE then
        let _ ← number buf 483 495
        return named member front
      else return named member front

def octalText : Nat → Nat → Bytes
  | 0, _ => []
  | width + 1, value => octalText width (value / 8) ++ [UInt8.ofNat (0x30 + value % 8)]

/-- Only numbers that fit are written: `overflow in number field`. -/
def itn (value width : Nat) : Option Bytes :=
  if value < 8 ^ (width - 1) then some (octalText (width - 1) value ++ [0]) else none

def stn (text : Bytes) (length : Nat) : Bytes := text.take length ++ zeros (length - text.length)

def POSIX_MAGIC : Bytes := [0x75, 0x73, 0x74, 0x61, 0x72, 0, 0x30, 0x30]

structure Info where
  name : Bytes
  mode : Nat := 0
  size : Nat
  type : UInt8

def leading (info : Info) (mode zero size mtime : Bytes) : Bytes :=
  stn info.name 100 ++ (mode ++ (zero ++ (zero ++ (size ++ mtime))))

def trailing (info : Info) : Bytes :=
  [info.type] ++ (stn [] 100 ++ (POSIX_MAGIC ++ (stn [] 32 ++ (stn [] 32 ++ (stn [] 8 ++
    (stn [] 8 ++ (stn [] 155 ++ zeros 12)))))))

def createHeader (info : Info) : Option Bytes := do
  let mode ← itn (info.mode % 8 ^ 4) 8
  let zero ← itn 0 8
  let size ← itn info.size 12
  let mtime ← itn 0 12
  let front := leading info mode zero size mtime
  let blank := front ++ (List.replicate 8 0x20 ++ trailing info)
  return front ++ (octalText 6 (calcChksums blank).1 ++ [0, 0x20] ++ trailing info)

@[simp] theorem length_octalText (width value : Nat) : (octalText width value).length = width := by
  induction width generalizing value with
  | zero => rfl
  | succ width ih => rw [octalText, List.length_append, ih]; rfl

@[simp] theorem length_stn (text : Bytes) (length : Nat) : (stn text length).length = length := by
  simp only [stn, List.length_append, List.length_take, length_zeros]
  omega

@[simp] theorem length_trailing (info : Info) : (trailing info).length = 356 := by
  simp [trailing, POSIX_MAGIC]

theorem itn_eq {value width : Nat} {field : Bytes} (written : itn value width = some field) :
    value < 8 ^ (width - 1) ∧ field = octalText (width - 1) value ++ [0] := by
  unfold itn at written
  split at written
  · rename_i fits
    exact ⟨fits, (Option.some.inj written).symm⟩
  · cases written

theorem octalText_digits (width value : Nat) (byte : UInt8) (member : byte ∈ octalText width value) :
    0x30 ≤ byte ∧ byte ≤ 0x37 := by
  induction width generalizing value with
  | zero => cases member
  | succ width ih =>
    rcases List.mem_append.mp member with before | last
    · exact ih (value / 8) before
    · rw [List.mem_singleton.mp last]
      have small : value % 8 < 8 := Nat.mod_lt _ (by decide)
      interval_cases value % 8 <;> decide

theorem octalDigits_digit (owed : Bool) (value digit : Nat) (small : digit < 8) (rest : Bytes) :
    octalDigits owed value (UInt8.ofNat (0x30 + digit) :: rest) =
      octalDigits false (8 * value + digit) rest := by
  interval_cases digit <;> rfl

theorem octalDigits_text (owed : Bool) (before width value : Nat) (rest : Bytes) :
    octalDigits owed before (octalText (width + 1) value ++ rest) =
      octalDigits false (before * 8 ^ (width + 1) + value % 8 ^ (width + 1)) rest := by
  induction width generalizing value rest with
  | zero =>
    rw [octalText, octalText, List.nil_append, List.singleton_append,
      octalDigits_digit _ _ _ (Nat.mod_lt _ (by decide))]
    congr 1
    omega
  | succ width ih =>
    rw [octalText, List.append_assoc, List.singleton_append, ih,
      octalDigits_digit _ _ _ (Nat.mod_lt _ (by decide))]
    congr 1
    rw [Nat.pow_succ' (n := width + 1), Nat.mod_mul]
    ring

theorem strip_plain (text : Bytes) (plain : ∀ byte ∈ text, isSpace byte = false) :
    strip text = text := by
  have kept : ∀ part : Bytes, (∀ byte ∈ part, isSpace byte = false) →
      part.dropWhile isSpace = part := by
    intro part none
    cases part with
    | nil => rfl
    | cons byte rest => exact List.dropWhile_cons_of_neg (by simp [none byte List.mem_cons_self])
  rw [strip, kept text plain, kept _ fun byte member => plain byte (List.mem_reverse.mp member),
    List.reverse_reverse]

theorem cut_plain (text rest : Bytes) (plain : 0 ∉ text) : cut (text ++ 0 :: rest) = text := by
  rw [cut, List.takeWhile_append_of_pos]
  · simp
  · intro byte member
    simpa using fun zero : byte = 0 => plain (zero ▸ member)

theorem nti_octalText (width value : Nat) (fits : value < 8 ^ (width + 1)) (rest : Bytes) :
    nti (octalText (width + 1) value ++ 0 :: rest) = some (value : Int) := by
  have digits := octalText_digits (width + 1) value
  have read := octalDigits_text true 0 width value []
  have long := length_octalText (width + 1) value
  rw [Nat.mod_eq_of_lt fits, Nat.zero_mul, Nat.zero_add, List.append_nil] at read
  generalize octalText (width + 1) value = text at digits read long ⊢
  have nul : 0 ∉ text := fun member => absurd (digits 0 member).1 (by decide)
  have plain : ∀ byte ∈ text, isSpace byte = false := by
    intro byte member
    have := digits byte member
    simp only [isSpace, Bool.or_eq_false_iff, Bool.and_eq_false_iff, decide_eq_false_iff_not,
      UInt8.le_iff_toNat_le, UInt8.ext_iff] at *
    simp at *
    omega
  have whole : unprefixed text = text := by
    apply if_neg
    rintro (same | same) <;>
      exact absurd (digits _ (List.mem_of_mem_take (same ▸ List.mem_cons_of_mem _
        List.mem_cons_self))).2 (by decide)
  have seven : ascii text = true := by
    rw [ascii, List.all_eq_true]
    intro byte member
    have := (digits byte member).2
    simp only [UInt8.le_iff_toNat_le, decide_eq_true_eq, UInt8.lt_iff_toNat_lt] at *
    simp at *
    omega
  have shown := cut_plain text rest nul
  cases text with
  | nil => cases long
  | cons first tail =>
    have range := digits first List.mem_cons_self
    have low : first ≠ 0x80 ∧ first ≠ 0xFF ∧ first ≠ 0x2D ∧ first ≠ 0x2B := by
      refine ⟨?_, ?_, ?_, ?_⟩ <;> rintro rfl <;> revert range <;> decide
    rw [List.cons_append, nti]
    rw [List.cons_append] at shown
    simp only [if_neg low.1, if_neg low.2.1, nts, shown, seven, if_true, Option.bind_some,
      strip_plain _ plain, List.isEmpty_cons, Bool.false_eq_true, if_false, octal,
      if_neg low.2.2.1, if_neg low.2.2.2, whole]
    rw [read]
    rfl

theorem slice_first (part rest : Bytes) (stop : Nat) (length : part.length = stop) :
    slice (part ++ rest) 0 stop = part := by
  rw [slice, List.drop_zero, Nat.sub_zero, ← length, List.take_left]

theorem slice_within (part rest : Bytes) (start stop : Nat) (inside : stop ≤ part.length) :
    slice (part ++ rest) start stop = slice part start stop := by
  rcases Nat.le_total start stop with order | empty
  · rw [slice, slice, List.drop_append_of_le_length (by omega),
      List.take_append_of_le_length (by rw [List.length_drop]; omega)]
  · rw [slice, slice, Nat.sub_eq_zero_of_le empty, List.take_zero, List.take_zero]

theorem slice_behind (part rest : Bytes) (start stop : Nat) (behind : part.length ≤ start) :
    slice (part ++ rest) start stop = slice rest (start - part.length) (stop - part.length) := by
  rw [slice, slice, List.drop_append, List.drop_eq_nil_of_le behind, List.nil_append]
  congr 1
  omega

theorem foldl_bound (buf : Bytes) (start : Nat) :
    buf.foldl (fun sum byte => sum + byte.toNat) start ≤ start + 255 * buf.length := by
  induction buf generalizing start with
  | nil => exact Nat.le_add_right start _
  | cons byte rest ih =>
    have := ih (start + byte.toNat)
    have := byte.toNat_lt
    rw [List.foldl_cons, List.length_cons]
    omega

theorem counted_around (front chksum back : Bytes) (before : front.length = 148)
    (width : chksum.length = 8) (after : back.length = 356) :
    counted (front ++ (chksum ++ back)) = front ++ back := by
  rw [counted, slice_first front _ 148 before, slice_behind front _ 156 512 (by omega),
    slice_behind chksum back _ _ (by omega), slice, before, width, List.drop_zero,
    List.take_of_length_le (by omega)]

theorem utf8_ascii (text : Bytes) (plain : ascii text) : utf8 text = true := by
  unfold utf8
  induction text with
  | nil => rfl
  | cons byte rest ih =>
    rw [ascii, List.all_cons, Bool.and_eq_true] at plain
    rw [utf8From, trail, if_pos (of_decide_eq_true plain.1)]
    exact ih plain.2

structure Plain (name : Bytes) : Prop where
  ascii : ascii name
  short : name.length ≤ 100
  nul : 0 ∉ name

theorem nts_stn (name : Bytes) (plain : Plain name) : nts utf8 (stn name 100) = some name := by
  have shown : cut (stn name 100) = name := by
    have short := plain.short
    rw [stn, List.take_of_length_le short]
    rcases Nat.lt_or_ge name.length 100 with less | full
    · obtain ⟨more, rest⟩ : ∃ more, 100 - name.length = more + 1 := ⟨99 - name.length, by omega⟩
      rw [rest]
      exact cut_plain name _ plain.nul
    · rw [Nat.sub_eq_zero_of_le full, zeros, List.replicate_zero, List.append_nil, cut,
        List.takeWhile_eq_self_iff]
      intro byte member
      simpa using fun zero : byte = 0 => plain.nul (zero ▸ member)
  rw [nts, shown, if_pos (utf8_ascii name plain.ascii)]

theorem slice_whole (part : Bytes) (stop : Nat) (length : part.length = stop) :
    slice part 0 stop = part := by
  rw [slice, List.drop_zero, Nat.sub_zero, ← length, List.take_length]

theorem slice_leading (info : Info) (mode zero size mtime : Bytes) (modeLength : mode.length = 8)
    (zeroLength : zero.length = 8) (sizeLength : size.length = 12) (mtimeLength : mtime.length = 12) :
    let front := leading info mode zero size mtime
    slice front 0 100 = stn info.name 100 ∧ slice front 100 108 = mode ∧
      slice front 108 116 = zero ∧ slice front 116 124 = zero ∧ slice front 124 136 = size ∧
      slice front 136 148 = mtime := by
  simp (disch := simp [*]) [leading, slice_behind, slice_first, slice_whole, *]

theorem slice_trailing (info : Info) :
    slice (trailing info) 0 1 = [info.type] ∧ slice (trailing info) 1 101 = stn [] 100 ∧
      slice (trailing info) 109 141 = stn [] 32 ∧ slice (trailing info) 141 173 = stn [] 32 ∧
      slice (trailing info) 173 181 = stn [] 8 ∧ slice (trailing info) 181 189 = stn [] 8 ∧
      slice (trailing info) 189 344 = stn [] 155 := by
  have magic : POSIX_MAGIC.length = 8 := rfl
  have kind : [info.type].length = 1 := rfl
  simp (disch := simp [*]) only [trailing, slice_behind, slice_first, magic, kind, length_stn,
    Nat.reduceSub, and_self]

theorem frombuf_createHeader (info : Info) (buf : Bytes) (plain : Plain info.name)
    (kind : info.type = REGTYPE ∨ info.type = XHDTYPE) (written : createHeader info = some buf) :
    buf.length = 512 ∧ ∃ chksum, frombuf buf = .ok
      { name := info.name, mode := (info.mode % 8 ^ 4 : ℕ), uid := 0, gid := 0, size := info.size
        mtime := 0, chksum, type := info.type, linkname := [], uname := [], gname := []
        devmajor := 0, devminor := 0 } := by
  simp only [createHeader, Option.bind_eq_bind, Option.bind_eq_some_iff, Option.pure_def,
    Option.some.injEq] at written
  obtain ⟨mode, isMode, zero, isZero, size, isSize, mtime, isMtime, rfl⟩ := written
  obtain ⟨modeFits, rfl⟩ := itn_eq isMode
  obtain ⟨-, rfl⟩ := itn_eq isZero
  obtain ⟨sizeFits, rfl⟩ := itn_eq isSize
  obtain ⟨-, rfl⟩ := itn_eq isMtime
  set front := leading info (octalText 7 (info.mode % 8 ^ 4) ++ [0]) (octalText 7 0 ++ [0])
    (octalText 11 info.size ++ [0]) (octalText 11 0 ++ [0]) with isFront
  have before : front.length = 148 := by simp [isFront, leading]
  set chksum := (calcChksums (front ++ (List.replicate 8 0x20 ++ trailing info))).1 with isSum
  have counts : chksum = (calcChksums (front ++ (octalText 6 chksum ++ [0, 0x20] ++
      trailing info))).1 := by
    rw [isSum]
    simp only [calcChksums]
    rw [counted_around _ _ _ before (by simp) (by simp),
      counted_around _ _ _ before (by simp) (by simp)]
  have few : chksum < 8 ^ 6 := by
    have bound := foldl_bound (front ++ trailing info) 256
    rw [isSum, calcChksums, counted_around _ _ _ before (by simp) (by simp)]
    rw [List.length_append, before, length_trailing] at bound
    dsimp only at bound ⊢
    omega
  have long : (front ++ (octalText 6 chksum ++ [0, 0x20] ++ trailing info)).length = 512 := by
    simp [before]
  refine ⟨long, chksum, ?_⟩
  set buf := front ++ (octalText 6 chksum ++ [0, 0x20] ++ trailing info) with isBuf
  have sum : slice buf 148 156 = octalText 6 chksum ++ [0, 0x20] := by
    rw [isBuf, slice_behind _ _ _ _ (by omega), before, slice_first _ _ _ (by simp)]
  have inFront : ∀ start stop, stop ≤ 148 → slice buf start stop = slice front start stop :=
    fun start stop inside => slice_within _ _ _ _ (by omega)
  have behind : ∀ start stop, 156 ≤ start →
      slice buf start stop = slice (trailing info) (start - 156) (stop - 156) := by
    intro start stop later
    rw [isBuf, ← List.append_assoc, slice_behind _ _ _ _ (by simp [before]; omega)]
    simp [before]
  obtain ⟨name, mode, uid, gid, size, mtime⟩ := slice_leading info
    (octalText 7 (info.mode % 8 ^ 4) ++ [0]) (octalText 7 0 ++ [0])
    (octalText 11 info.size ++ [0]) (octalText 11 0 ++ [0]) (by simp) (by simp) (by simp) (by simp)
  obtain ⟨type, linkname, uname, gname, devmajor, devminor, prior⟩ := slice_trailing info
  have zero : nti (octalText 7 0 ++ [0]) = some 0 := nti_octalText 6 0 (by decide) []
  have modeRead : nti (octalText 7 (info.mode % 8 ^ 4) ++ [0]) = some ((info.mode % 8 ^ 4 : ℕ) : Int) :=
    nti_octalText 6 _ modeFits []
  have sizeRead : nti (octalText 11 info.size ++ [0]) = some (info.size : Int) :=
    nti_octalText 10 _ sizeFits []
  have mtimeRead : nti (octalText 11 0 ++ [0]) = some 0 := nti_octalText 10 0 (by decide) []
  have device : nti (stn [] 8) = some 0 := rfl
  have empty : ∀ length, nts utf8 (stn [] (length + 1)) = some [] := fun _ => rfl
  have read : fields buf chksum = .ok (⟨info.name, (info.mode % 8 ^ 4 : ℕ), 0, 0, info.size, 0,
      chksum, info.type, [], [], [], 0, 0⟩, []) := by
    simp only [fields, text, number, inFront 0 100 (by decide), inFront 100 108 (by decide),
      inFront 108 116 (by decide), inFront 116 124 (by decide), inFront 124 136 (by decide),
      inFront 136 148 (by decide), behind 156 157 (by decide), behind 157 257 (by decide),
      behind 265 297 (by decide), behind 297 329 (by decide), behind 329 337 (by decide),
      behind 337 345 (by decide), behind 345 500 (by decide), Nat.reduceSub, isFront, name, mode,
      uid, gid, size, mtime, type, linkname, uname, gname, devmajor, devminor, prior, zero, modeRead,
      sizeRead, mtimeRead, device, empty, nts_stn info.name plain]
    rfl
  have summed : number buf 148 156 = .ok (chksum : Int) := by
    rw [number, sum, nti_octalText 5 chksum few [0x20]]
  have apart : info.type ≠ 0 ∧ info.type ≠ AREGTYPE ∧ info.type ≠ DIRTYPE ∧
      info.type ≠ GNUTYPE_SPARSE := by
    rcases kind with same | same <;> rw [same] <;> decide
  have filled : buf ≠ zeros 512 := by
    intro same
    have here := (behind 156 157 (by decide)).trans type
    rw [same] at here
    exact apart.1 (List.cons.inj here).1.symm
  rw [frombuf, if_neg (by omega), if_neg (by omega), if_neg filled, summed]
  simp only [bind, Except.bind, read]
  rw [← counts, if_neg fun both => both.1 rfl, if_neg apart.2.2.2]
  simp [named, apart.2.1, apart.2.2.1]
  rfl

end RhPools.TarHeaders
