/-
  `ZipWriter::createToFile` (`infrastructure/filesystem/zip_writer.cpp`).

  The writer appends a local record for each source file, keeps what the central
  directory has to say about it, and writes the directory and the end record behind
  them.  All lengths and offsets are cast to the fields of the format.

  The clock, the source files and zlib's `deflate` are parameters; `deflate` is asked once
  for each entry and may fail.  The output is not one of the source files.
-/
import NarMusic.Lib.Binary

namespace NarMusic.Zip

open Cxx Binary

structure ZipEntry where
  filename : Str
  filePath : Str
  deriving DecidableEq

structure CentralDirEntry where
  versionMadeBy : UInt16
  versionNeeded : UInt16
  flags : UInt16
  compression : UInt16
  modTime : UInt16
  modDate : UInt16
  crc32 : UInt32
  compressedSize : UInt32
  uncompressedSize : UInt32
  filenameLen : UInt16
  extraLen : UInt16
  commentLen : UInt16
  diskStart : UInt16
  internalAttr : UInt16
  externalAttr : UInt32
  localHeaderOffset : UInt32
  filename : Str
  deriving DecidableEq

/-- The fields of `struct tm` that go into a file time. -/
structure Tm where
  hour : ℕ
  min : ℕ
  sec : ℕ
  year : ℕ
  mon : ℕ
  mday : ℕ

def dosTime (t : Tm) : UInt16 := .ofNat (t.hour <<< 11 ||| t.min <<< 5 ||| t.sec / 2)

def dosDate (t : Tm) : UInt16 :=
  (UInt16.ofNat t.year - 80) <<< 9 ||| UInt16.ofNat ((t.mon + 1) <<< 5) ||| UInt16.ofNat t.mday

def readFileContents (files : Str → Option Str) (path : Str) : Option Str := files (cStr path)

/-- `crc32Calc`, with the length as a `uInt`. -/
def crc32Calc (data : Str) (len : ℕ) : UInt32 := Binary.crc32 (data.take (UInt32.ofNat len).toNat)

def hasNonAscii (filename : Str) : Bool := filename.any fun c => 127 < c

/-- What is stored for the data of a file. -/
structure Packed where
  compression : UInt16 := 0
  compressedSize : UInt32 := 0
  compressedData : Str := []

/-- The data is deflated, or stored where `deflate` fails. -/
def pack (deflate : Str → Option Str) (fileData : Str) : Packed :=
  let uncompressedSize := UInt32.ofNat fileData.length
  if uncompressedSize > 0 then
    match deflate (fileData.take uncompressedSize.toNat) with
    | some data => ⟨8, .ofNat data.length, data⟩
    | none => ⟨0, uncompressedSize, fileData⟩
  else {}

structure Writer where
  out : Str := []
  centralDir : List CentralDirEntry := []

/-- The local header before the file name. -/
def localHeader (cd : CentralDirEntry) : Str :=
  writeU32 0x04034b50 ++ writeU16 cd.versionNeeded ++ writeU16 cd.flags ++ writeU16 cd.compression ++
    writeU16 cd.modTime ++ writeU16 cd.modDate ++ writeU32 cd.crc32 ++ writeU32 cd.compressedSize ++
    writeU32 cd.uncompressedSize ++ writeU16 cd.filenameLen ++ writeU16 0

/-- The values of an entry; the local header is written from the same ones. -/
def centralDirEntry (modTime modDate : UInt16) (entry : ZipEntry) (fileData : Str) (packed : Packed)
    (offset : ℕ) : CentralDirEntry :=
  let uncompressedSize := UInt32.ofNat fileData.length
  { versionMadeBy := 20
    versionNeeded := 20
    flags := if hasNonAscii entry.filename then 0x0800 else 0
    compression := packed.compression
    modTime
    modDate
    crc32 := if uncompressedSize > 0 then crc32Calc fileData fileData.length else 0
    compressedSize := packed.compressedSize
    uncompressedSize
    filenameLen := .ofNat entry.filename.length
    extraLen := 0
    commentLen := 0
    diskStart := 0
    internalAttr := 0
    externalAttr := 0
    localHeaderOffset := .ofNat offset
    filename := entry.filename }

/-- One round of the loop over the entries. -/
def writeEntry (modTime modDate : UInt16) (deflate : Str → Option Str) (w : Writer) (entry : ZipEntry)
    (fileData : Str) : Writer :=
  let packed := pack deflate fileData
  let cd := centralDirEntry modTime modDate entry fileData packed w.out.length
  { out := w.out ++ (localHeader cd ++ entry.filename ++ packed.compressedData)
    centralDir := w.centralDir ++ [cd] }

/-- The loop, which returns at the first file that cannot be read.  `i` numbers the calls of
    `deflate`. -/
def writeEntries (modTime modDate : UInt16) (files : Str → Option Str) (deflate : ℕ → Str → Option Str) :
    ℕ → List ZipEntry → Writer → Bool × Writer
  | _, [], w => (true, w)
  | i, entry :: entries, w =>
    match readFileContents files entry.filePath with
    | none => (false, w)
    | some fileData => writeEntries modTime modDate files deflate (i + 1) entries
        (writeEntry modTime modDate (deflate i) w entry fileData)

def centralRecord (cd : CentralDirEntry) : Str :=
  writeU32 0x02014b50 ++ writeU16 cd.versionMadeBy ++ writeU16 cd.versionNeeded ++ writeU16 cd.flags ++
    writeU16 cd.compression ++ writeU16 cd.modTime ++ writeU16 cd.modDate ++ writeU32 cd.crc32 ++
    writeU32 cd.compressedSize ++ writeU32 cd.uncompressedSize ++ writeU16 cd.filenameLen ++
    writeU16 cd.extraLen ++ writeU16 cd.commentLen ++ writeU16 cd.diskStart ++ writeU16 cd.internalAttr ++
    writeU32 cd.externalAttr ++ writeU32 cd.localHeaderOffset ++ cd.filename

def endRecord (count : ℕ) (centralDirSize centralDirOffset : UInt32) : Str :=
  writeU32 0x06054b50 ++ writeU16 0 ++ writeU16 0 ++ writeU16 (.ofNat count) ++ writeU16 (.ofNat count) ++
    writeU32 centralDirSize ++ writeU32 centralDirOffset ++ writeU16 0

/-- The directory and the end record behind the local records. -/
def finish (w : Writer) : Str :=
  let centralDirOffset := UInt32.ofNat w.out.length
  let out := w.out ++ w.centralDir.flatMap centralRecord
  let centralDirSize := UInt32.ofNat out.length - centralDirOffset
  out ++ endRecord w.centralDir.length centralDirSize centralDirOffset

/-- What `createToFile` returns and the bytes of the output.  `opened` says whether the output can be
    opened; writing to it does not fail. -/
def createToFile (opened : Bool) (time date : Tm) (files : Str → Option Str)
    (deflate : ℕ → Str → Option Str) (entries : List ZipEntry) : Bool × Str :=
  if opened then
    match writeEntries (dosTime time) (dosDate date) files deflate 0 entries {} with
    | (false, w) => (false, w.out)
    | (true, w) => (true, finish w)
  else (false, [])

end NarMusic.Zip
