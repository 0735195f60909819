import RhPools.ArchiveFormat

/-! `archive` and what the reader makes of its stream. The writer is `tarfile` with its default
format, which tells a size from 8 GiB on in an extended header. -/

namespace RhPools.ArchiveRoundTrip
open BigEndian (Bytes)
open TarHeaders PaxRecords ArchiveReader ArchiveFormat

def filler (size : Nat) : Bytes := if size % 512 > 0 then zeros (512 - size % 512) else []

def PAX_HEADER : Bytes := bytesOf "././@PaxHeader"

/-- `create_pax_header`, where only the size may be out of range. -/
def tobuf (info : Info) : Option Bytes :=
  if info.size < 8 ^ 11 then createHeader info
  else do
    let records ← paxRecord SIZE (digitsOf info.size)
    let extension ← createHeader { name := PAX_HEADER, size := records.length, type := XHDTYPE }
    let header ← createHeader { info with size := 0 }
    return extension ++ (records ++ filler records.length) ++ header

def addfile (name contents : Bytes) : Option Bytes :=
  (tobuf { name, mode := 0o600, size := contents.length, type := REGTYPE }).map fun header =>
    header ++ (contents ++ filler contents.length)

def closed (members : Bytes) : Bytes :=
  let offset := members.length + 1024
  members ++ (zeros 1024 ++ if offset % 10240 > 0 then zeros (10240 - offset % 10240) else [])

/-- A file of a size that `st_size` can tell. -/
structure File where
  contents : Bytes
  size : contents.length < 2 ^ 63

variable {Document Digest : Type} [DecidableEq Digest] (manifests : Manifests Document Digest)
  (database : File) (manifest : Document)

def encoded : Bytes := manifests.dumps manifest ++ [0x0A]

/-- The stream that `archive` hands to the compressor, unless it raises. -/
def archive : Option Bytes :=
  if database.contents.length ≠ manifests.bytes manifest then none
  else do
    let first ← addfile DATABASE database.contents
    if manifests.hexdigest database.contents ≠ manifests.sha256 manifest then none
    else
      let second ← addfile MANIFEST (encoded manifests manifest)
      return closed (first ++ second)

def Clean (filler : Bytes) : Prop := filler = zeros filler.length

theorem filler_eq (size : Nat) : filler size = zeros (padding size) := by
  unfold filler padding
  split
  · congr 1
    omega
  · rw [show (-(size : Int) % 512).toNat = 0 by omega]
    rfl

theorem createHeader_some (info : Info) (fits : info.size < 8 ^ 11) :
    ∃ buf, createHeader info = some buf := by
  have small : ∀ value width, value < 8 ^ (width - 1) →
      itn value width = some (octalText (width - 1) value ++ [0]) := fun _ _ less => if_pos less
  rw [createHeader, small _ 8 (by omega), small 0 8 (by decide), small _ 12 fits,
    small 0 12 (by decide)]
  exact ⟨_, rfl⟩

theorem plain_names (name : Bytes) (known : name ∈ [DATABASE, MANIFEST, PAX_HEADER]) :
    Plain name := by
  simp only [List.mem_cons, List.not_mem_nil, or_false] at known
  rcases known with rfl | rfl | rfl
  · exact ⟨by decide, by decide, by decide⟩
  · exact ⟨by decide, by decide, by decide⟩
  · exact ⟨by decide, by decide, by decide⟩

theorem createHeader_read (info : Info) (known : info.name ∈ [DATABASE, MANIFEST, PAX_HEADER])
    (kind : info.type = REGTYPE ∨ info.type = XHDTYPE) (fits : info.size < 8 ^ 11) :
    ∃ header member, createHeader info = some header ∧ header.length = 512 ∧
      frombuf header = .ok member ∧ member.name = info.name ∧ member.type = info.type ∧
      member.size = info.size := by
  obtain ⟨header, written⟩ := createHeader_some info fits
  obtain ⟨long, chksum, read⟩ :=
    frombuf_createHeader info header (plain_names info.name known) kind written
  exact ⟨header, _, written, long, read, rfl, rfl, rfl⟩

/-- The extended header of a size, as `tobuf` writes it. -/
theorem extension_extends (size : Nat) (large : 8 ^ 11 ≤ size) (few : size < 2 ^ 63) :
    ∃ records extension, paxRecord SIZE (digitsOf size) = some records ∧
      createHeader { name := PAX_HEADER, size := records.length, type := XHDTYPE } =
        some extension ∧
      Extends Clean (extension ++ (records ++ filler records.length)) [(SIZE, digitsOf size)] := by
  have positive : size ≠ 0 := by omega
  have logged : 1 ≤ Nat.log 10 size := Nat.log_pos (by decide) (by omega)
  have low := Nat.pow_log_le_self 10 positive
  have high := Nat.lt_pow_succ_log_self (by decide : 1 < 10) size
  have places : Nat.log 10 size < 63 := by
    apply (Nat.pow_lt_pow_iff_right (by decide : 1 < 10)).mp
    calc 10 ^ Nat.log 10 size ≤ size := low
      _ < 10 ^ 63 := few.trans (by decide)
  obtain ⟨more, isMore⟩ : ∃ more, Nat.log 10 size = more + 1 := ⟨Nat.log 10 size - 1, by omega⟩
  rw [isMore] at low high places
  obtain ⟨record, written, valid, field, short⟩ :=
    paxRecord_number SIZE size more List.mem_cons_self low high (by omega)
  obtain ⟨extension, member, packed, long, read, -, kind, sized⟩ := createHeader_read
    { name := PAX_HEADER, size := record.bytes.length, type := XHDTYPE }
    (by simp) (.inr rfl) (by dsimp only; omega)
  refine ⟨record.bytes, extension, written, packed, extension, member, record.bytes, _, rfl, long,
    read, kind, sized, ?_, by omega, ?_, ?_, ?_⟩
  · simp [Record.bytes]
  · refine ⟨[record], by simpa using valid, by simp, by simp [field], by simp, ?_⟩
    intro other _ absurd
    cases absurd
  · rw [filler_eq, length_zeros]
  · rw [filler_eq, Clean, length_zeros]

theorem named_header {name : Bytes} (known : name ∈ [DATABASE, MANIFEST]) :
    name ∈ [DATABASE, MANIFEST, PAX_HEADER] := by
  simp only [List.mem_cons, List.not_mem_nil, or_false] at known ⊢
  exact known.imp_right .inl

theorem addfile_packs (name contents : Bytes) (known : name ∈ [DATABASE, MANIFEST])
    (small : contents.length < 8 ^ 11) :
    ∃ block, addfile name contents = some block ∧ Packs none name contents block := by
  obtain ⟨header, member, written, long, read, called, kind, sized⟩ := createHeader_read
    { name, mode := 0o600, size := contents.length, type := REGTYPE } (named_header known)
    (.inl rfl) small
  refine ⟨header ++ (contents ++ filler contents.length), ?_, header, member, by rw [filler_eq],
    long, read, by rw [kind]; exact List.mem_cons_self, called, congrArg Except.ok sized⟩
  rw [addfile, tobuf, if_pos small, written]
  rfl

theorem addfile_member (name contents : Bytes) (known : name ∈ [DATABASE, MANIFEST])
    (few : contents.length < 2 ^ 63) :
    ∃ block, addfile name contents = some block ∧ Member Clean name contents block := by
  by_cases small : contents.length < 8 ^ 11
  · obtain ⟨block, added, packs⟩ := addfile_packs name contents known small
    exact ⟨block, added, none, [], block, rfl, rfl, packs⟩
  · obtain ⟨records, extension, listed, extended, extends_⟩ :=
      extension_extends contents.length (by omega) few
    obtain ⟨header, member, written, long, read, called, kind, -⟩ := createHeader_read
      { name, mode := 0o600, size := 0, type := REGTYPE } (named_header known) (.inl rfl)
      (Nat.pow_pos (by decide))
    refine ⟨extension ++ (records ++ filler records.length) ++ (header ++ (contents ++ filler
      contents.length)), ?_, some [(SIZE, digitsOf contents.length)], _, _, rfl, extends_, header,
      member, by rw [filler_eq], long, read, by rw [kind]; exact List.mem_cons_self, called, ?_⟩
    · rw [addfile, tobuf, if_neg small, listed]
      simp only [Option.bind_eq_bind, Option.bind_some, extended, written, Option.pure_def,
        Option.map_some, List.append_assoc]
    · have found : ([(SIZE, digitsOf contents.length)] : Fields).lookup SIZE =
          some (digitsOf contents.length) := by simp
      rw [ArchiveReader.sizeOf, Option.getD_some, found]
      dsimp only
      rw [if_pos (isdigit_digitsOf _), decimal_digitsOf]

theorem closed_eq (members : Bytes) :
    ∃ count, 1024 ≤ count ∧ count ≤ 1024 + 10240 ∧ closed members = members ++ zeros count := by
  unfold closed
  dsimp only
  split
  · exact ⟨1024 + (10240 - (members.length + 1024) % 10240), by omega, by omega,
      by rw [zeros_append]⟩
  · exact ⟨1024, le_rfl, by omega, by rw [List.append_nil]⟩

theorem archive_returns (sized : database.contents.length = manifests.bytes manifest)
    (summed : manifests.hexdigest database.contents = manifests.sha256 manifest)
    (few : (encoded manifests manifest).length < 2 ^ 63) :
    ∃ stream, archive manifests database manifest = some stream := by
  obtain ⟨first, added, -⟩ :=
    addfile_member DATABASE database.contents List.mem_cons_self database.size
  obtain ⟨second, described, -⟩ := addfile_member MANIFEST (encoded manifests manifest)
    (List.mem_cons_of_mem _ List.mem_cons_self) few
  rw [archive, if_neg fun other => other sized, added, Option.bind_eq_bind, Option.bind_some,
    if_neg fun other => other summed, described]
  exact ⟨_, rfl⟩

theorem archive_layout {stream : Bytes} (packed : archive manifests database manifest = some stream) :
    database.contents.length = manifests.bytes manifest ∧
      ∃ first second count, addfile DATABASE database.contents = some first ∧
        addfile MANIFEST (encoded manifests manifest) = some second ∧ 1024 ≤ count ∧
        count ≤ 1024 + 10240 ∧ stream = first ++ second ++ zeros count := by
  unfold archive at packed
  split at packed
  · cases packed
  · rename_i sized
    obtain ⟨first, added, behind⟩ := Option.bind_eq_some_iff.mp packed
    split at behind
    · cases behind
    · obtain ⟨second, described, last⟩ := Option.bind_eq_some_iff.mp behind
      obtain ⟨count, least, most, ends⟩ := closed_eq (first ++ second)
      exact ⟨not_not.mp sized, first, second, count, added, described, least, most,
        (Option.some.inj last).symm.trans ends⟩

theorem archive_conforms {stream : Bytes} (packed : archive manifests database manifest = some stream)
    (few : (encoded manifests manifest).length ≤ 1024 ^ 2)
    (loaded : manifests.loads (encoded manifests manifest) = some manifest) :
    Conforms manifests manifest Clean stream database.contents := by
  obtain ⟨sized, first, second, count, added, described, least, most, rfl⟩ :=
    archive_layout manifests database manifest packed
  obtain ⟨_, again, member⟩ :=
    addfile_member DATABASE database.contents List.mem_cons_self database.size
  obtain ⟨_, once, document⟩ := addfile_member MANIFEST (encoded manifests manifest)
    (List.mem_cons_of_mem _ List.mem_cons_self) (by omega)
  cases added.symm.trans again
  cases described.symm.trans once
  refine ⟨_, first, second, count, member, document, .inl rfl, least, most, sized, ?_, few, loaded⟩
  simp [encoded]

variable [DecidableEq Document]

theorem archive_refused {stream : Bytes} (packed : archive manifests database manifest = some stream)
    (long : 1024 ^ 2 < (encoded manifests manifest).length)
    (few : (encoded manifests manifest).length < 8 ^ 11) (result : Bytes) :
    archiveRestore manifests manifest stream ≠ some (.ok result) := by
  intro restored
  obtain ⟨sized, first, second, count, added, described, -, -, rfl⟩ :=
    archive_layout manifests database manifest packed
  obtain ⟨_, again, member⟩ :=
    addfile_member DATABASE database.contents List.mem_cons_self database.size
  obtain ⟨_, once, packs⟩ := addfile_packs MANIFEST (encoded manifests manifest)
    (List.mem_cons_of_mem _ List.mem_cons_self) few
  cases added.symm.trans again
  cases described.symm.trans once
  rw [archiveRestore, List.append_assoc, run_member manifests manifest _
    (member.mono fun _ _ => trivial) (Finset.notMem_empty _) (.inl ⟨rfl, sized, rfl⟩)] at restored
  have laid := run_laid manifests manifest
    ⟨second ++ zeros count, insert DATABASE ∅, none, [] ++ database.contents⟩ result [] rfl restored
  rcases laid.cases_on_seen with ⟨one, -⟩ | ⟨name, body, block, rest, after, -, read, holds, same, -⟩
  · have listed : MANIFEST ∈ (insert DATABASE ∅ : Finset Bytes) := by
      rw [show insert DATABASE ∅ = ({DATABASE, MANIFEST} : Finset Bytes) from one]
      simp
    exact database_manifest (by simpa using listed : MANIFEST = DATABASE).symm
  · obtain ⟨rfl, width⟩ := packs.read read same
    rcases holds with ⟨other, -⟩ | ⟨-, -, short, -⟩
    · exact database_manifest other.symm
    · omega

/-- The reader ends on every stream. It restores a database exactly from the streams of the
format, whatever fills the blocks of extended headers. Every archive of a database is restored
to it, as long as its manifest decodes to itself and takes no more than a mebibyte. -/
theorem archive_restored :
    (∀ stream, ∃ outcome, archiveRestore manifests manifest stream = some outcome) ∧
    (∀ stream target, archiveRestore manifests manifest stream = some (.ok target) ↔
      Conforms manifests manifest (fun _ => True) stream target) ∧
    ((encoded manifests manifest).length ≤ 1024 ^ 2 →
      manifests.loads (encoded manifests manifest) = some manifest → ∀ database : File,
        (database.contents.length = manifests.bytes manifest →
          manifests.hexdigest database.contents = manifests.sha256 manifest →
            ∃ stream, archive manifests database manifest = some stream) ∧
        ∀ stream, archive manifests database manifest = some stream →
          archiveRestore manifests manifest stream = some (.ok database.contents)) := by
  refine ⟨fun stream => run_ends manifests manifest _, archiveRestore_iff, ?_⟩
  intro few loaded database
  refine ⟨fun sized summed => archive_returns manifests database manifest sized summed (by omega),
    fun stream packed => ?_⟩
  obtain ⟨document, first, second, count, member, described, rest⟩ :=
    archive_conforms manifests database manifest packed few loaded
  exact (archiveRestore_iff stream database.contents).mpr ⟨document, first, second, count,
    member.mono fun _ _ => trivial, described.mono fun _ _ => trivial, rest⟩

/-! Manifests of an empty database. They differ in the number of letters in the name of their
epoch, which are no ASCII and take six bytes each. -/

def SAMPLE_SHA : String := "e3b0c44298fc1c149afbf4c8996fb92427ae41e4649b934ca495991b7852b855"

def sampleFront : Bytes :=
  bytesOf "\x7b\"bytes\": 0, \"format_version\": 1, \"metadata\": \x7b\"epoch\": \""

def sampleBack : Bytes :=
  bytesOf "\"\x7d, \"page_count\": 0, \"page_size\": 4096, \"schema_version\": 0, \"sha256\": \"" ++
    bytesOf SAMPLE_SHA ++ bytesOf "\", \"verification\": \"quick_check\"\x7d"

def sampleText (letters : Nat) : Bytes :=
  sampleFront ++ ((List.replicate letters (bytesOf "\\u00e9")).flatten ++ sampleBack)

def sampleManifests : Manifests Nat String where
  loads data :=
    let letters := (data.length - (sampleFront.length + sampleBack.length + 1)) / 6
    if data = sampleText letters ++ [0x0A] then some letters else none
  dumps := sampleText
  bytes _ := 0
  sha256 _ := SAMPLE_SHA
  hexdigest _ := SAMPLE_SHA

def emptyFile : File := ⟨[], by decide⟩

theorem length_sampleText (letters : Nat) :
    (sampleText letters).length = sampleFront.length + sampleBack.length + 6 * letters := by
  have six : (bytesOf "\\u00e9").length = 6 := by decide
  simp [sampleText, six]
  omega

theorem sample_loads (letters : Nat) :
    sampleManifests.loads (encoded sampleManifests letters) = some letters := by
  have count : ((encoded sampleManifests letters).length -
      (sampleFront.length + sampleBack.length + 1)) / 6 = letters := by
    rw [encoded, List.length_append, show sampleManifests.dumps = sampleText from rfl,
      length_sampleText]
    simp
  simp only [sampleManifests] at count ⊢
  rw [count]
  exact if_pos rfl

theorem sample_length (letters : Nat) :
    6 * letters < (encoded sampleManifests letters).length ∧
      (encoded sampleManifests letters).length ≤ 6 * letters + 2001 := by
  have front : sampleFront.length ≤ 1000 := by decide +kernel
  have back : sampleBack.length ≤ 1000 := by decide +kernel
  rw [encoded, List.length_append, show sampleManifests.dumps = sampleText from rfl,
    length_sampleText, List.length_singleton]
  omega

/-- The empty database goes into an archive and comes back. -/
theorem archive_restored_sample :
    ∃ stream, archive sampleManifests emptyFile 0 = some stream ∧
      archiveRestore sampleManifests 0 stream = some (.ok []) := by
  have short := (sample_length 0).2
  obtain ⟨packed, restored⟩ := (archive_restored sampleManifests 0).2.2 (by omega)
    (sample_loads 0) emptyFile
  obtain ⟨stream, archived⟩ := packed rfl rfl
  exact ⟨stream, archived, restored stream archived⟩

/-! A stream whose extended header tells a time, and has a one among the zeros behind it. -/

def slackHeader : Bytes :=
  (createHeader { name := PAX_HEADER, size := 11, type := XHDTYPE }).getD []

def slackRecord : Record := ⟨[0x31, 0x31], MTIME, [0x30]⟩

def slackStream : Bytes :=
  slackHeader ++ (slackRecord.bytes ++ 1 :: zeros 500) ++ (addfile DATABASE []).getD [] ++
    (addfile MANIFEST (encoded sampleManifests 0)).getD [] ++ zeros 1024

/-- Not all that the reader takes is filled up with zeros, and not all that is archived is
restored: the text of a manifest may be longer than its file, where every letter was one. -/
theorem archive_inexact :
    (archiveRestore sampleManifests 0 slackStream = some (.ok []) ∧
      ¬Conforms sampleManifests 0 Clean slackStream []) ∧
    ∃ stream, archive sampleManifests emptyFile 200000 = some stream ∧
      sampleManifests.loads (encoded sampleManifests 200000) = some 200000 ∧
      ∀ target, archiveRestore sampleManifests 200000 stream ≠ some (.ok target) := by
  have short := (sample_length 0).2
  have wide := sample_length 200000
  obtain ⟨header, member, written, long, read, -, kind, size⟩ := createHeader_read
    { name := PAX_HEADER, size := 11, type := XHDTYPE } (by simp) (.inr rfl) (by decide)
  obtain ⟨first, added, packs⟩ := addfile_packs DATABASE [] List.mem_cons_self (by decide)
  obtain ⟨second, described, document⟩ := addfile_member MANIFEST (encoded sampleManifests 0)
    (List.mem_cons_of_mem _ List.mem_cons_self) (by omega)
  have layout : slackStream = header ++ (slackRecord.bytes ++ 1 :: zeros 500) ++ first ++ second ++
      zeros 1024 := by
    rw [slackStream, slackHeader, written, added, described]
    rfl
  have valid : slackRecord.Valid := ⟨by decide, by decide, by decide⟩
  have fills : (1 :: zeros 500 : Bytes).length = padding slackRecord.bytes.length := by
    rw [List.length_cons, length_zeros]
    rfl
  refine ⟨⟨?_, ?_⟩, ?_⟩
  · have extends_ : Extends (fun _ => True) (header ++ (slackRecord.bytes ++ 1 :: zeros 500))
        [slackRecord.field] := by
      refine ⟨header, member, _, _, rfl, long, read, kind, size, by decide, by decide, ?_, fills,
        trivial⟩
      refine ⟨[slackRecord], by simpa using valid, by simp, by simp, by simp, ?_⟩
      intro other _ absurd
      cases absurd
    rw [archiveRestore_iff]
    refine ⟨encoded sampleManifests 0, header ++ (slackRecord.bytes ++ 1 :: zeros 500) ++ first,
      second, 1024, ⟨some [slackRecord.field], _, first, rfl, extends_, packs⟩,
      document.mono fun _ _ => trivial, .inl layout, le_rfl, by decide, rfl, (sample_length 0).1.trans_le' (Nat.zero_le _),
      by omega, sample_loads 0⟩
  · have dirty : ¬Clean (1 :: zeros 500) := by
      intro clean
      have none := (any_iff _).mpr clean
      simp at none
    have one : member.size = slackRecord.bytes.length := size
    rintro ⟨_, front, back, count, database, manifest, order, -⟩
    rw [layout] at order
    simp only [List.append_assoc] at order
    rcases order with same | same
    · exact dirty (database.filled same.symm long read kind one fills)
    · exact dirty (manifest.filled same.symm long read kind one fills)
  · obtain ⟨stream, packed⟩ :=
      archive_returns sampleManifests emptyFile 200000 rfl rfl (by omega)
    exact ⟨stream, packed, sample_loads _,
      archive_refused _ _ _ packed (by omega) (by omega)⟩

end RhPools.ArchiveRoundTrip
