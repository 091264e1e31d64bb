/-
  A reader of ZIP archives, as the format asks for it, and what it reads of an archive that
  has been laid out.

  The end record is looked for from the end of the file backwards; it gives the place of the
  central directory, the directory gives the place of each local header, and the data
  behind that header is inflated or copied.

  * `Stored` says that an archive holds the local record of a directory entry at its offset,
    with the data of a file behind it.  What is appended leaves it (`Stored.append`), and
    the reader finds the file there (`Stored.readMember`).
  * `readArchive_laid_out` puts the pieces together.
-/
import Mathlib.Data.List.Forall2
import NarMusic.Zip.Writer

namespace NarMusic.Zip

open Cxx Binary Binary.Parser

structure LocalHeader where
  versionNeeded : UInt16
  flags : UInt16
  compression : UInt16
  modTime : UInt16
  modDate : UInt16
  crc32 : UInt32
  compressedSize : UInt32
  uncompressedSize : UInt32
  filename : Str
  deriving DecidableEq

structure EndRecord where
  count : UInt16
  centralDirSize : UInt32
  centralDirOffset : UInt32

/-- What is read of one file. -/
structure Member where
  central : CentralDirEntry
  header : LocalHeader
  data : Str
  content : Str
  deriving DecidableEq

/-- The local header that agrees with a directory entry. -/
def CentralDirEntry.toLocal (cd : CentralDirEntry) : LocalHeader where
  versionNeeded := cd.versionNeeded
  flags := cd.flags
  compression := cd.compression
  modTime := cd.modTime
  modDate := cd.modDate
  crc32 := cd.crc32
  compressedSize := cd.compressedSize
  uncompressedSize := cd.uncompressedSize
  filename := cd.filename

/-- The two headers agree, and the checksum and the sizes are those of the file. -/
structure Member.Sound (m : Member) : Prop where
  header : m.header = m.central.toLocal
  crc : m.central.crc32 = Binary.crc32 m.content
  compressedSize : m.central.compressedSize.toNat = m.data.length
  uncompressedSize : m.central.uncompressedSize.toNat = m.content.length

def parseLocal : Parser LocalHeader := do
  signature 0x04034b50
  let versionNeeded ← u16
  let flags ← u16
  let compression ← u16
  let modTime ← u16
  let modDate ← u16
  let crc32 ← u32
  let compressedSize ← u32
  let uncompressedSize ← u32
  let filenameLen ← u16
  let extraLen ← u16
  let filename ← bytes filenameLen.toNat
  let _ ← bytes extraLen.toNat
  pure { versionNeeded, flags, compression, modTime, modDate, crc32, compressedSize, uncompressedSize,
         filename }

def parseCentral : Parser CentralDirEntry := do
  signature 0x02014b50
  let versionMadeBy ← u16
  let versionNeeded ← u16
  let flags ← u16
  let compression ← u16
  let modTime ← u16
  let modDate ← u16
  let crc32 ← u32
  let compressedSize ← u32
  let uncompressedSize ← u32
  let filenameLen ← u16
  let extraLen ← u16
  let commentLen ← u16
  let diskStart ← u16
  let internalAttr ← u16
  let externalAttr ← u32
  let localHeaderOffset ← u32
  let filename ← bytes filenameLen.toNat
  let _ ← bytes extraLen.toNat
  let _ ← bytes commentLen.toNat
  pure { versionMadeBy, versionNeeded, flags, compression, modTime, modDate, crc32, compressedSize,
         uncompressedSize, filenameLen, extraLen, commentLen, diskStart, internalAttr, externalAttr,
         localHeaderOffset, filename }

def parseEnd : Parser EndRecord := do
  signature 0x06054b50
  let _ ← u16
  let _ ← u16
  let _ ← u16
  let count ← u16
  let centralDirSize ← u32
  let centralDirOffset ← u32
  let commentLen ← u16
  let _ ← bytes commentLen.toNat
  pure { count, centralDirSize, centralDirOffset }

/-- The last end record that begins at position `p` or before it, with its comment up to the end. -/
def locateEnd (archive : Str) : ℕ → Option EndRecord
  | 0 =>
    match parseEnd.run archive with
    | some (e, []) => some e
    | _ => none
  | p + 1 =>
    match parseEnd.run (archive.drop (p + 1)) with
    | some (e, []) => some e
    | _ => locateEnd archive p

def unpack (inflate : Str → Option Str) (compression : UInt16) (data : Str) : Option Str :=
  if compression = 8 then inflate data else if compression = 0 then some data else none

def readMember (inflate : Str → Option Str) (archive : Str) (cd : CentralDirEntry) : Option Member := do
  let (header, rest) ← parseLocal.run (archive.drop cd.localHeaderOffset.toNat)
  let (data, _) ← (bytes cd.compressedSize.toNat).run rest
  let content ← unpack inflate cd.compression data
  pure ⟨cd, header, data, content⟩

def readArchive (inflate : Str → Option Str) (archive : Str) : Option (List Member) := do
  guard (22 ≤ archive.length)
  let e ← locateEnd archive (archive.length - 22)
  let directory := (archive.drop e.centralDirOffset.toNat).take e.centralDirSize.toNat
  let (cds, rest) ← (parseCentral.times e.count.toNat).run directory
  guard (rest = [])
  cds.mapM (readMember inflate archive)

/-! ## Records -/

theorem localHeader_reads {cd : CentralDirEntry} (hlen : cd.filename.length = cd.filenameLen.toNat) :
    Reads parseLocal (localHeader cd ++ cd.filename) cd.toLocal := by
  have hnone : ([] : Str).length = (0 : UInt16).toNat := rfl
  simp only [localHeader, List.append_assoc]
  exact (signature_reads _).bind <| (u16_reads _).bind <| (u16_reads _).bind <| (u16_reads _).bind <|
    (u16_reads _).bind <| (u16_reads _).bind <| (u32_reads _).bind <| (u32_reads _).bind <|
    (u32_reads _).bind <| (u16_reads _).bind <| (u16_reads _).bind <| (bytes_reads hlen).bind_nil <|
    (bytes_reads hnone).bind_nil <| Reads.pure _

theorem centralRecord_reads {cd : CentralDirEntry} (hlen : cd.filename.length = cd.filenameLen.toNat)
    (hextra : cd.extraLen = 0) (hcomment : cd.commentLen = 0) :
    Reads parseCentral (centralRecord cd) cd := by
  have hnone : ([] : Str).length = cd.extraLen.toNat := by rw [hextra]; rfl
  have hnone' : ([] : Str).length = cd.commentLen.toNat := by rw [hcomment]; rfl
  delta centralRecord
  simp only [List.append_assoc]
  exact (signature_reads _).bind <| (u16_reads _).bind <| (u16_reads _).bind <| (u16_reads _).bind <|
    (u16_reads _).bind <| (u16_reads _).bind <| (u16_reads _).bind <| (u32_reads _).bind <|
    (u32_reads _).bind <| (u32_reads _).bind <| (u16_reads _).bind <| (u16_reads _).bind <|
    (u16_reads _).bind <| (u16_reads _).bind <| (u16_reads _).bind <| (u32_reads _).bind <|
    (u32_reads _).bind <| (bytes_reads hlen).bind_nil <| (bytes_reads hnone).bind_nil <|
    (bytes_reads hnone').bind_nil <| Reads.pure _

theorem endRecord_reads (count : ℕ) (size offset : UInt32) :
    Reads parseEnd (endRecord count size offset) ⟨.ofNat count, size, offset⟩ := by
  have hnone : ([] : Str).length = (0 : UInt16).toNat := rfl
  simp only [endRecord, List.append_assoc]
  exact (signature_reads _).bind <| (u16_reads _).bind <| (u16_reads _).bind <| (u16_reads _).bind <|
    (u16_reads _).bind <| (u32_reads _).bind <| (u32_reads _).bind <| (u16_reads _).bind_nil <|
    (bytes_reads hnone).bind_nil <| Reads.pure _

theorem endRecord_length (count : ℕ) (size offset : UInt32) : (endRecord count size offset).length = 22 := by
  simp [endRecord, writeU16, writeU32]

/-- An end record at the end of the archive is the last one. -/
theorem locateEnd_append (a : Str) (count : ℕ) (size offset : UInt32) :
    locateEnd (a ++ endRecord count size offset) a.length = some ⟨.ofNat count, size, offset⟩ := by
  have hread := endRecord_reads count size offset []
  rw [List.append_nil] at hread
  cases a with
  | nil =>
    simp only [List.nil_append, List.length_nil, locateEnd]
    rw [hread]
  | cons c a =>
    simp only [List.length_cons, locateEnd]
    rw [List.drop_left' (List.length_cons ..), hread]

/-! ## What an archive holds -/

/-- A directory entry describes a file: `data` is what is stored of it. -/
structure CentralDirEntry.Describes (inflate : Str → Option Str) (cd : CentralDirEntry)
    (name content data : Str) : Prop where
  filename : cd.filename = name
  filenameLen : name.length = cd.filenameLen.toNat
  extraLen : cd.extraLen = 0
  commentLen : cd.commentLen = 0
  crc : cd.crc32 = Binary.crc32 content
  compressedSize : data.length = cd.compressedSize.toNat
  uncompressedSize : content.length = cd.uncompressedSize.toNat
  unpacked : unpack inflate cd.compression data = some content

/-- The local record of a directory entry, with the data of a file, lies at the offset of the entry. -/
def Stored (inflate : Str → Option Str) (archive : Str) (cd : CentralDirEntry) (name content : Str) : Prop :=
  ∃ before data behind, archive = before ++ (localHeader cd ++ cd.filename ++ data) ++ behind ∧
    before.length = cd.localHeaderOffset.toNat ∧ cd.Describes inflate name content data

variable {inflate : Str → Option Str} {archive : Str} {cd : CentralDirEntry} {name content : Str}

theorem Stored.append (h : Stored inflate archive cd name content) (more : Str) :
    Stored inflate (archive ++ more) cd name content := by
  obtain ⟨before, data, behind, rfl, hoffset, hdesc⟩ := h
  exact ⟨before, data, behind ++ more, List.append_assoc .., hoffset, hdesc⟩

theorem Stored.reads (h : Stored inflate archive cd name content) :
    Reads parseCentral (centralRecord cd) cd := by
  obtain ⟨_, _, _, _, _, hdesc⟩ := h
  exact centralRecord_reads (hdesc.filename ▸ hdesc.filenameLen) hdesc.extraLen hdesc.commentLen

/-- The reader follows the offset to the file. -/
theorem Stored.readMember (h : Stored inflate archive cd name content) :
    ∃ m, readMember inflate archive cd = some m ∧ m.Sound ∧
      (m.central.filename, m.content) = (name, content) := by
  obtain ⟨before, data, behind, rfl, hoffset, hdesc⟩ := h
  have hdrop : (before ++ (localHeader cd ++ cd.filename ++ data) ++ behind).drop cd.localHeaderOffset.toNat =
      localHeader cd ++ cd.filename ++ (data ++ behind) := by
    rw [List.append_assoc, List.drop_left' hoffset]
    simp only [List.append_assoc]
  have hheader := localHeader_reads (hdesc.filename ▸ hdesc.filenameLen) (data ++ behind)
  have hdata := bytes_reads hdesc.compressedSize behind
  refine ⟨⟨cd, cd.toLocal, data, content⟩, ?_, ?_, ?_⟩
  · simp only [Zip.readMember, hdrop, hheader, hdata, hdesc.unpacked, Option.bind_eq_bind,
      Option.bind_some, Option.pure_def]
  · exact ⟨rfl, hdesc.crc, hdesc.compressedSize.symm, hdesc.uncompressedSize.symm⟩
  · show (cd.filename, content) = (name, content)
    rw [hdesc.filename]

theorem mapM_forall₂ {α β γ : Type} {f : α → Option β} {P : β → γ → Prop} {as : List α} {cs : List γ}
    (h : List.Forall₂ (fun a c => ∃ b, f a = some b ∧ P b c) as cs) :
    ∃ bs, as.mapM f = some bs ∧ List.Forall₂ P bs cs := by
  induction h with
  | nil => exact ⟨[], rfl, .nil⟩
  | cons hac _ ih =>
    obtain ⟨b, hb, hP⟩ := hac
    obtain ⟨bs, hbs, hall⟩ := ih
    exact ⟨b :: bs, by simp [List.mapM_cons, hb, hbs], .cons hP hall⟩

theorem finish_length (w : Writer) :
    (finish w).length = w.out.length + (w.centralDir.flatMap centralRecord).length + 22 := by
  simp only [finish, List.length_append, endRecord_length]

/-- An archive that has been laid out is read: local records, the directory, the end record. -/
theorem readArchive_laid_out {w : Writer} {files : List (Str × Str)}
    (hstored : List.Forall₂ (fun cd file => Stored inflate w.out cd file.1 file.2) w.centralDir files)
    (hcount : w.centralDir.length < 65536) (hsize : (finish w).length < 2 ^ 32) :
    ∃ members, readArchive inflate (finish w) = some members ∧
      members.map (fun m => (m.central.filename, m.content)) = files ∧ ∀ m ∈ members, m.Sound := by
  let directory := w.centralDir.flatMap centralRecord
  have hfinish : finish w = w.out ++ directory ++ endRecord w.centralDir.length
      (.ofNat (w.out ++ directory).length - .ofNat w.out.length) (.ofNat w.out.length) := rfl
  have hlen : (finish w).length = w.out.length + directory.length + 22 := finish_length w
  have hoffset : (UInt32.ofNat w.out.length).toNat = w.out.length := by
    rw [UInt32.toNat_ofNat']
    omega
  have hdirsize : (UInt32.ofNat (w.out ++ directory).length - UInt32.ofNat w.out.length).toNat =
      directory.length := by
    rw [UInt32.toNat_sub, hoffset, UInt32.toNat_ofNat', List.length_append]
    omega
  have hentries : (UInt16.ofNat w.centralDir.length).toNat = w.centralDir.length := by
    rw [UInt16.toNat_ofNat']
    omega
  have hend : locateEnd (finish w) ((finish w).length - 22) = some ⟨.ofNat w.centralDir.length,
      .ofNat (w.out ++ directory).length - .ofNat w.out.length, .ofNat w.out.length⟩ := by
    have hplace : (finish w).length - 22 = (w.out ++ directory).length := by
      rw [hlen, List.length_append]
      omega
    rw [hplace, hfinish]
    exact locateEnd_append ..
  have hdirectory : ((finish w).drop w.out.length).take directory.length = directory := by
    rw [hfinish, List.append_assoc, List.drop_left, List.take_left]
  have hcds : (parseCentral.times w.centralDir.length).run directory = some (w.centralDir, []) := by
    have hreads : ∀ cd ∈ w.centralDir, Reads parseCentral (centralRecord cd) cd :=
      ((List.forall₂_and_left _ _).1 (hstored.imp fun _ _ h => ⟨h.reads, h⟩)).1
    have hrun := Reads.times hreads []
    rwa [List.append_nil] at hrun
  obtain ⟨members, hmembers, hall⟩ := mapM_forall₂ (f := readMember inflate (finish w))
    (hstored.imp fun cd file h => by
      have happ := h.append (directory ++ endRecord w.centralDir.length
        (.ofNat (w.out ++ directory).length - .ofNat w.out.length) (.ofNat w.out.length))
      rw [← List.append_assoc] at happ
      exact happ.readMember)
  obtain ⟨hsound, hnames⟩ := (List.forall₂_and_left _ _).1 hall
  refine ⟨members, ?_, ?_, hsound⟩
  · have hle : 22 ≤ (finish w).length := by omega
    simp only [readArchive, guard, hle, if_true, hend, hoffset, hdirsize, hentries, hdirectory, hcds,
      Option.bind_eq_bind, Option.bind_some, Option.pure_def, hmembers]
  · rwa [← List.forall₂_map_left_iff, List.forall₂_eq_eq_eq] at hnames

end NarMusic.Zip
