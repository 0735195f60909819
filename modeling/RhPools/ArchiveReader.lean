import RhPools.PaxRecords
import RhPools.TarHeaders

/-! `_archive_restore`: the reader of a backup archive, over the stream that the decompressor
gives. The codec of the manifest is open. -/

namespace RhPools.ArchiveReader
open BigEndian (Bytes)
open TarHeaders PaxRecords

inductive Failure where
  | backup (text : String)
  /-- A text that is no UTF-8, or no JSON. -/
  | value
  deriving DecidableEq, Repr

def bytesOf (text : String) : Bytes := text.toList.map fun letter => UInt8.ofNat letter.toNat

def DATABASE : Bytes := bytesOf "database.sqlite"
def MANIFEST : Bytes := bytesOf "manifest.json"

/-- The JSON library and what is read of a manifest. `_load_manifest` has let through only a
number of bytes that is not negative. -/
structure Manifests (Document Digest : Type) where
  loads : Bytes → Option Document
  dumps : Document → Bytes
  bytes : Document → Nat
  sha256 : Document → Digest
  hexdigest : Bytes → Digest

structure Reader where
  stream : Bytes
  seen : Finset Bytes
  extended : Option Fields
  target : Bytes

inductive Turn where
  | again (reader : Reader)
  | done (target : Bytes)

def take (stream : Bytes) (size : Nat) : Except Failure (Bytes × Bytes) :=
  if (stream.take size).length ≠ size then .error (.backup "truncated backup archive")
  else .ok (stream.take size, stream.drop size)

/-- `_copy_bytes`. -/
def copyBytes (source target : Bytes) (remaining : Nat) : Except Failure (Bytes × Bytes) :=
  if remaining = 0 then .ok (source, target)
  else
    let chunk := source.take (min (4 * 1024 ^ 2) remaining)
    if chunk = [] then .error (.backup "backup payload ended before its declared size")
    else copyBytes (source.drop chunk.length) (target ++ chunk) (remaining - chunk.length)
termination_by remaining
decreasing_by
  exact Nat.sub_lt (Nat.pos_of_ne_zero ‹_›) (List.length_pos_iff.mpr ‹_›)

def readExtension (reader : Reader) (member : TarInfo) (stream : Bytes) : Except Failure Turn :=
  if reader.extended.isSome ∨ ¬(0 < member.size ∧ member.size ≤ 4096) then
    .error (.backup "unsupported archive extension")
  else do
    let size := member.size.toNat
    let (block, rest) ← take stream ((size + 511) / 512 * 512)
    match readRecords (block.take size) [] with
    | .error text => .error (.backup text)
    | .ok extended => return .again { reader with stream := rest, extended := some extended }

def sizeOf (extended : Option Fields) (member : TarInfo) : Except Failure Int :=
  match (extended.getD []).lookup SIZE with
  | none => .ok member.size
  | some size =>
    if isdigit size then .ok (decimal size) else .error (.backup "invalid archive member size")

/-- `(-size) % 512`. -/
def padding (size : Int) : Nat := (-size % 512).toNat

variable {Document Digest : Type} [DecidableEq Document] (manifests : Manifests Document Digest)
  (manifest : Document)

def readContent (reader : Reader) (name stream : Bytes) (size : Int) :
    Except Failure (Bytes × Bytes) :=
  if name = DATABASE then
    if size ≠ manifests.bytes manifest then
      .error (.backup "archived database size does not match its manifest")
    else copyBytes stream reader.target size.toNat
  else
    let mismatch := Failure.backup "archived manifest does not match its external copy"
    if ¬(0 < size ∧ size ≤ 1024 ^ 2) then .error mismatch
    else do
      let (data, rest) ← take stream size.toNat
      match manifests.loads data with
      | none => .error .value
      | some document =>
        if document ≠ manifest then .error mismatch else .ok (rest, reader.target)

def readMember (reader : Reader) (member : TarInfo) (stream : Bytes) : Except Failure Turn :=
  if member.type ∉ [REGTYPE, AREGTYPE] ∨ member.name ∉ [DATABASE, MANIFEST] ∨
      member.name ∈ reader.seen then
    .error (.backup "unexpected backup archive member")
  else do
    let size ← sizeOf reader.extended member
    let (stream, target) ← readContent manifests manifest reader member.name stream size
    let (filler, stream) ← take stream (padding size)
    if filler.any (· ≠ 0) then .error (.backup "invalid backup archive padding")
    else return .again ⟨stream, insert member.name reader.seen, none, target⟩

def readEnd (reader : Reader) (stream : Bytes) : Except Failure Turn := do
  let (second, stream) ← take stream 512
  if second ≠ zeros 512 ∨ reader.seen ≠ {DATABASE, MANIFEST} ∨ reader.extended.isSome then
    .error (.backup "incomplete backup archive")
  else
    let trailer := stream.take 10241
    if trailer.length > 10240 ∨ trailer.any (· ≠ 0) then
      .error (.backup "unexpected data after the backup archive")
    else return .done reader.target

/-- One turn of `while True`. -/
def turn (reader : Reader) : Except Failure Turn := do
  let (header, stream) ← take reader.stream 512
  if header = zeros 512 then readEnd reader stream
  else match frombuf header with
    | .error (.header _) => .error (.backup "invalid backup archive header")
    | .error .undecodable => .error .value
    | .ok member =>
      if member.type = XHDTYPE then readExtension reader member stream
      else readMember manifests manifest reader member stream

def turns : Nat → Reader → Option (Except Failure Bytes)
  | 0, _ => none
  | fuel + 1, reader =>
    match turn manifests manifest reader with
    | .error failure => some (.error failure)
    | .ok (.done target) => some (.ok target)
    | .ok (.again next) => turns fuel next

def run (reader : Reader) : Option (Except Failure Bytes) :=
  turns manifests manifest (reader.stream.length / 512 + 1) reader

/-- `_archive_restore`: what becomes of the empty target. -/
def archiveRestore (stream : Bytes) : Option (Except Failure Bytes) :=
  run manifests manifest ⟨stream, ∅, none, []⟩

theorem take_iff (stream front rest : Bytes) (size : Nat) :
    take stream size = .ok (front, rest) ↔ stream = front ++ rest ∧ front.length = size := by
  unfold take
  constructor
  · intro taken
    split at taken
    · cases taken
    · rename_i long
      cases taken
      exact ⟨(List.take_append_drop size stream).symm, not_not.mp long⟩
  · rintro ⟨rfl, rfl⟩
    rw [List.take_left, List.drop_left, if_neg fun short => short rfl]

theorem copyBytes_iff (source target rest copied : Bytes) (size : Nat) :
    copyBytes source target size = .ok (rest, copied) ↔
      ∃ body, source = body ++ rest ∧ body.length = size ∧ copied = target ++ body := by
  induction source, target, size using copyBytes.induct with
  | case1 source target =>
    rw [copyBytes, if_pos rfl]
    constructor
    · rintro ⟨⟩
      exact ⟨[], rfl, rfl, (List.append_nil _).symm⟩
    · rintro ⟨body, rfl, empty, rfl⟩
      rw [List.length_eq_zero_iff.mp empty, List.nil_append, List.append_nil]
  | case2 source target size some chunk empty =>
    rw [copyBytes, if_neg some]
    dsimp only
    rw [if_pos empty]
    constructor
    · rintro ⟨⟩
    · rintro ⟨body, rfl, long, -⟩
      have short := congrArg List.length empty
      rw [List.length_take, List.length_append, List.length_nil] at short
      omega
  | case3 source target size some chunk filled ih =>
    rw [copyBytes, if_neg some]
    dsimp only
    rw [if_neg filled, ih]
    have width : chunk.length ≤ size := by
      rw [List.length_take]
      omega
    have front : source.take chunk.length = chunk :=
      (List.prefix_iff_eq_take.mp (List.take_prefix _ _)).symm
    constructor
    · rintro ⟨body, behind, long, rfl⟩
      refine ⟨chunk ++ body, ?_, ?_, (List.append_assoc _ _ _)⟩
      · rw [← List.take_append_drop chunk.length source, behind, front, List.append_assoc]
      · rw [List.length_append, long, Nat.add_sub_cancel' width]
    · rintro ⟨body, rfl, rfl, rfl⟩
      rw [List.take_append_of_le_length width] at front
      refine ⟨body.drop chunk.length, List.drop_append_of_le_length width, List.length_drop, ?_⟩
      conv_lhs => rw [← List.take_append_drop chunk.length body, front]
      rw [List.append_assoc]

end RhPools.ArchiveReader
