/-
  The casts of `createToFile`.

  Lengths, offsets and the count are cast to the 16 and 32 bits of their fields without
  a check, so the writer returns true also for an archive that the format cannot
  represent.  No value is changed exactly when the archive is representable
  (`exact_iff`): the sums are taken over the true sizes, and the loop agrees with them
  as long as no file is too long (`writeEntries_out`).
-/
import NarMusic.Zip.RoundTrip

namespace NarMusic.Zip

open Cxx Binary

/-! ## The values that are written, and the true ones -/

/-- The values of an entry are those of its record. -/
def EntryExact (deflate : Str → Option Str) (w : Writer) (entry : ZipEntry) (fileData : Str) : Prop :=
  let packed := pack deflate fileData
  let cd := centralDirEntry 0 0 entry fileData packed w.out.length
  cd.filenameLen.toNat = entry.filename.length ∧ cd.compressedSize.toNat = packed.compressedData.length ∧
    cd.uncompressedSize.toNat = fileData.length ∧ cd.localHeaderOffset.toNat = w.out.length

/-- The same for every entry of the loop. -/
def EntriesExact (modTime modDate : UInt16) (files : Str → Option Str) (deflate : ℕ → Str → Option Str) :
    ℕ → List ZipEntry → Writer → Prop
  | _, [], _ => True
  | i, entry :: entries, w =>
    match readFileContents files entry.filePath with
    | none => True
    | some fileData => EntryExact (deflate i) w entry fileData ∧
        EntriesExact modTime modDate files deflate (i + 1) entries
          (writeEntry modTime modDate (deflate i) w entry fileData)

/-- The count, the offset and the size of the end record are those of the directory. -/
def EndExact (w : Writer) : Prop :=
  let centralDirOffset := UInt32.ofNat w.out.length
  let directory := w.centralDir.flatMap centralRecord
  (UInt16.ofNat w.centralDir.length).toNat = w.centralDir.length ∧
    centralDirOffset.toNat = w.out.length ∧
    (UInt32.ofNat (w.out ++ directory).length - centralDirOffset).toNat = directory.length

/-- No value that `createToFile` writes was changed by a cast. -/
def Exact (time date : Tm) (files : Str → Option Str) (deflate : ℕ → Str → Option Str)
    (entries : List ZipEntry) : Prop :=
  EntriesExact (dosTime time) (dosDate date) files deflate 0 entries {} ∧
    EndExact (writeEntries (dosTime time) (dosDate date) files deflate 0 entries {}).2

/-! ## What the format can represent -/

/-- How long the data of a file is in the archive. -/
def storedLength (deflate : Str → Option Str) (content : Str) : ℕ :=
  if content = [] then 0 else ((deflate content).getD content).length

/-- How long the local records are. -/
def localBytes (files : Str → Option Str) (deflate : ℕ → Str → Option Str) : ℕ → List ZipEntry → ℕ
  | _, [] => 0
  | i, entry :: entries =>
    30 + entry.filename.length +
      storedLength (deflate i) ((readFileContents files entry.filePath).getD []) +
      localBytes files deflate (i + 1) entries

/-- How long the directory is. -/
def directoryBytes : List ZipEntry → ℕ
  | [] => 0
  | entry :: entries => 46 + entry.filename.length + directoryBytes entries

/-- Every value has room in its field. -/
structure Representable (files : Str → Option Str) (deflate : ℕ → Str → Option Str)
    (entries : List ZipEntry) : Prop where
  count : entries.length < 2 ^ 16
  names : ∀ entry ∈ entries, entry.filename.length < 2 ^ 16
  contents : ∀ entry ∈ entries, ∀ content, readFileContents files entry.filePath = some content →
    content.length < 2 ^ 32
  locals : localBytes files deflate 0 entries < 2 ^ 32
  directory : directoryBytes entries < 2 ^ 32

/-! ## Casts -/

theorem toNat_ofNat16_iff {n : ℕ} : (UInt16.ofNat n).toNat = n ↔ n < 2 ^ 16 := by
  rw [UInt16.toNat_ofNat']
  exact Nat.mod_eq_iff_lt (by decide)

theorem toNat_ofNat32_iff {n : ℕ} : (UInt32.ofNat n).toNat = n ↔ n < 2 ^ 32 := by
  rw [UInt32.toNat_ofNat']
  exact Nat.mod_eq_iff_lt (by decide)

/-- The difference of two positions is the distance, as far as it has room. -/
theorem toNat_sub_ofNat32_iff {m n : ℕ} :
    (UInt32.ofNat (m + n) - UInt32.ofNat m).toNat = n ↔ n < 2 ^ 32 := by
  rw [UInt32.ofNat_add, UInt32.add_comm, UInt32.add_sub_cancel]
  exact toNat_ofNat32_iff

/-! ## The loop -/

variable {modTime modDate : UInt16} {files : Str → Option Str} {deflate : ℕ → Str → Option Str}

theorem localHeader_length (cd : CentralDirEntry) : (localHeader cd).length = 30 := by
  simp [localHeader, writeU16, writeU32]

theorem centralRecord_length (cd : CentralDirEntry) :
    (centralRecord cd).length = 46 + cd.filename.length := by
  delta centralRecord
  simp only [writeU16, writeU32, List.length_append, List.length_cons, List.length_nil]

theorem pack_length {deflate : Str → Option Str} {content : Str} (h : content.length < 2 ^ 32) :
    (pack deflate content).compressedData.length = storedLength deflate content := by
  have hlen : (UInt32.ofNat content.length).toNat = content.length := toNat_ofNat32_iff.2 h
  unfold pack storedLength
  by_cases hnil : content = []
  · subst hnil
    rfl
  · have hpos : UInt32.ofNat content.length > 0 := by
      rw [gt_iff_lt, UInt32.lt_iff_toNat_lt, hlen]
      exact List.length_pos_of_ne_nil hnil
    rw [if_neg hnil]
    simp only [hpos, if_true, hlen, List.take_length]
    cases deflate content <;> rfl

/-- A compressed size is written as it is, but for its cast. -/
theorem pack_compressedSize {deflate : Str → Option Str} {content : Str} (h : content.length < 2 ^ 32) :
    (pack deflate content).compressedSize = .ofNat (pack deflate content).compressedData.length := by
  have hlen : (UInt32.ofNat content.length).toNat = content.length := toNat_ofNat32_iff.2 h
  unfold pack
  by_cases hpos : UInt32.ofNat content.length > 0
  · simp only [hpos, if_true, hlen, List.take_length]
    cases deflate content <;> rfl
  · simp only [hpos, if_false]
    rfl

theorem entryExact_iff {deflate : Str → Option Str} {w : Writer} {entry : ZipEntry} {content : Str} :
    EntryExact deflate w entry content ↔
      entry.filename.length < 2 ^ 16 ∧ content.length < 2 ^ 32 ∧ storedLength deflate content < 2 ^ 32 ∧
        w.out.length < 2 ^ 32 := by
  unfold EntryExact
  simp only [centralDirEntry, toNat_ofNat16_iff, toNat_ofNat32_iff]
  constructor
  · rintro ⟨hname, hsize, hcontent, hoffset⟩
    rw [pack_compressedSize hcontent, toNat_ofNat32_iff, pack_length hcontent] at hsize
    exact ⟨hname, hcontent, hsize, hoffset⟩
  · rintro ⟨hname, hcontent, hsize, hoffset⟩
    rw [pack_compressedSize hcontent, toNat_ofNat32_iff, pack_length hcontent]
    exact ⟨hname, hsize, hcontent, hoffset⟩

/-- **The loop**: the local records have their true length, and the directory that of its entries. -/
theorem writeEntries_out {entries : List ZipEntry} (i : ℕ) (w : Writer)
    (hread : ∀ entry ∈ entries, (readFileContents files entry.filePath).isSome)
    (hfiles : ∀ entry ∈ entries, ∀ content, readFileContents files entry.filePath = some content →
      content.length < 2 ^ 32) :
    (writeEntries modTime modDate files deflate i entries w).2.out.length =
      w.out.length + localBytes files deflate i entries := by
  induction entries generalizing i w with
  | nil => rfl
  | cons entry entries ih =>
    obtain ⟨hsome, hread⟩ := List.forall_mem_cons.1 hread
    obtain ⟨hcontent, hfiles⟩ := List.forall_mem_cons.1 hfiles
    obtain ⟨content, hsome⟩ := Option.isSome_iff_exists.1 hsome
    simp only [writeEntries, localBytes, hsome, Option.getD_some]
    rw [ih _ _ hread hfiles]
    simp only [writeEntry, List.length_append, localHeader_length, pack_length (hcontent _ hsome)]
    omega

/-- The directory of the loop has an entry for each file. -/
theorem writeEntries_directory {entries : List ZipEntry} (i : ℕ) (w : Writer)
    (hread : ∀ entry ∈ entries, (readFileContents files entry.filePath).isSome) :
    (writeEntries modTime modDate files deflate i entries w).2.centralDir.length =
        w.centralDir.length + entries.length ∧
      ((writeEntries modTime modDate files deflate i entries w).2.centralDir.flatMap centralRecord).length =
        (w.centralDir.flatMap centralRecord).length + directoryBytes entries := by
  induction entries generalizing i w with
  | nil => exact ⟨rfl, rfl⟩
  | cons entry entries ih =>
    obtain ⟨hsome, hread⟩ := List.forall_mem_cons.1 hread
    obtain ⟨content, hsome⟩ := Option.isSome_iff_exists.1 hsome
    simp only [writeEntries, hsome]
    obtain ⟨hcount, hbytes⟩ := ih (i + 1) (writeEntry modTime modDate (deflate i) w entry content) hread
    rw [hcount, hbytes]
    constructor
    · simp only [writeEntry, List.length_append, List.length_cons, List.length_nil]
      omega
    · simp only [writeEntry, List.flatMap_append, List.length_append, List.flatMap_cons, List.flatMap_nil,
        List.append_nil, centralRecord_length, centralDirEntry, directoryBytes]
      omega

/-- The loop ends with all files read, or stops at one that cannot be. -/
theorem writeEntries_true_iff {entries : List ZipEntry} {i : ℕ} {w : Writer} :
    (writeEntries modTime modDate files deflate i entries w).1 = true ↔
      ∀ entry ∈ entries, (readFileContents files entry.filePath).isSome := by
  induction entries generalizing i w with
  | nil => simp [writeEntries]
  | cons entry entries ih =>
    rw [List.forall_mem_cons]
    unfold writeEntries
    cases readFileContents files entry.filePath with
    | none => simp
    | some content => simp [ih]

/-- With room for the local records, the entries are exact when names and files fit. -/
theorem entriesExact_iff {entries : List ZipEntry} {i : ℕ} {w : Writer}
    (hread : ∀ entry ∈ entries, (readFileContents files entry.filePath).isSome)
    (hroom : w.out.length + localBytes files deflate i entries < 2 ^ 32) :
    EntriesExact modTime modDate files deflate i entries w ↔
      (∀ entry ∈ entries, entry.filename.length < 2 ^ 16) ∧
        ∀ entry ∈ entries, ∀ content, readFileContents files entry.filePath = some content →
          content.length < 2 ^ 32 := by
  induction entries generalizing i w with
  | nil => simp [EntriesExact]
  | cons entry entries ih =>
    obtain ⟨hsome, hread⟩ := List.forall_mem_cons.1 hread
    obtain ⟨content, hsome⟩ := Option.isSome_iff_exists.1 hsome
    simp only [localBytes, hsome, Option.getD_some] at hroom
    rw [List.forall_mem_cons, List.forall_mem_cons]
    simp only [EntriesExact, hsome, entryExact_iff, Option.some.injEq, forall_eq']
    have hnext (hcontent : content.length < 2 ^ 32) :
        (writeEntry modTime modDate (deflate i) w entry content).out.length +
          localBytes files deflate (i + 1) entries < 2 ^ 32 := by
      simp only [writeEntry, List.length_append, localHeader_length, pack_length hcontent]
      omega
    constructor
    · rintro ⟨⟨hname, hcontent, -, -⟩, hrest⟩
      obtain ⟨hnames, hfiles⟩ := (ih hread (hnext hcontent)).1 hrest
      exact ⟨⟨hname, hnames⟩, hcontent, hfiles⟩
    · rintro ⟨⟨hname, hnames⟩, hcontent, hfiles⟩
      exact ⟨⟨hname, hcontent, by omega, by omega⟩, (ih hread (hnext hcontent)).2 ⟨hnames, hfiles⟩⟩

/-- Exact entries have files of the size of the format. -/
theorem EntriesExact.contents {entries : List ZipEntry} {i : ℕ} {w : Writer}
    (hread : ∀ entry ∈ entries, (readFileContents files entry.filePath).isSome)
    (h : EntriesExact modTime modDate files deflate i entries w) :
    ∀ entry ∈ entries, ∀ content, readFileContents files entry.filePath = some content →
      content.length < 2 ^ 32 := by
  induction entries generalizing i w with
  | nil => simp
  | cons entry entries ih =>
    obtain ⟨hsome, hread⟩ := List.forall_mem_cons.1 hread
    obtain ⟨content, hsome⟩ := Option.isSome_iff_exists.1 hsome
    simp only [EntriesExact, hsome, entryExact_iff] at h
    refine List.forall_mem_cons.2 ⟨fun c hc => ?_, ih hread h.2⟩
    rw [hsome, Option.some.injEq] at hc
    exact hc ▸ h.1.2.1

theorem endExact_iff {w : Writer} :
    EndExact w ↔ w.centralDir.length < 2 ^ 16 ∧ w.out.length < 2 ^ 32 ∧
      (w.centralDir.flatMap centralRecord).length < 2 ^ 32 := by
  simp only [EndExact, List.length_append, toNat_ofNat16_iff, toNat_ofNat32_iff, toNat_sub_ofNat32_iff]

/-- Of files that can all be read, the values are exact when they are representable. -/
theorem exact_iff_representable (time date : Tm) {entries : List ZipEntry}
    (hread : ∀ entry ∈ entries, (readFileContents files entry.filePath).isSome) :
    Exact time date files deflate entries ↔ Representable files deflate entries := by
  obtain ⟨w, hw⟩ : ∃ w, w = (writeEntries (dosTime time) (dosDate date) files deflate 0 entries {}).2 :=
    ⟨_, rfl⟩
  have hdirectory : w.centralDir.length = entries.length ∧
      (w.centralDir.flatMap centralRecord).length = directoryBytes entries := by
    rw [hw]
    simpa using writeEntries_directory 0 {} hread
  have hout (hfiles : ∀ entry ∈ entries, ∀ content, readFileContents files entry.filePath = some content →
      content.length < 2 ^ 32) : w.out.length = localBytes files deflate 0 entries := by
    rw [hw]
    simpa using writeEntries_out 0 {} hread hfiles
  unfold Exact
  rw [← hw, endExact_iff, hdirectory.1, hdirectory.2]
  constructor
  · rintro ⟨hentries, hcount, hoffset, hdirectory⟩
    have hfiles := hentries.contents hread
    rw [hout hfiles] at hoffset
    have hroom : ([] : Str).length + localBytes files deflate 0 entries < 2 ^ 32 := by
      rwa [List.length_nil, Nat.zero_add]
    exact ⟨hcount, ((entriesExact_iff hread hroom).1 hentries).1, hfiles, hoffset, hdirectory⟩
  · intro h
    rw [hout h.contents]
    have hroom : ([] : Str).length + localBytes files deflate 0 entries < 2 ^ 32 := by
      rw [List.length_nil, Nat.zero_add]
      exact h.locals
    exact ⟨(entriesExact_iff hread hroom).2 ⟨h.names, h.contents⟩, h.count, h.locals, h.directory⟩

theorem createToFile_true_iff {opened : Bool} {time date : Tm} {entries : List ZipEntry} :
    (createToFile opened time date files deflate entries).1 = true ↔
      opened = true ∧ ∀ entry ∈ entries, (readFileContents files entry.filePath).isSome := by
  have hloop : (writeEntries (dosTime time) (dosDate date) files deflate 0 entries {}).1 = true ↔
      ∀ entry ∈ entries, (readFileContents files entry.filePath).isSome := writeEntries_true_iff
  rw [← hloop]
  unfold createToFile
  cases opened with
  | false => simp
  | true =>
    rcases writeEntries (dosTime time) (dosDate date) files deflate 0 entries {} with ⟨_ | _, w⟩
    · simp
    · simp

/-- **What `createToFile` reports as written** is exact when the archive is representable. -/
theorem exact_iff (opened : Bool) (time date : Tm) (files : Str → Option Str)
    (deflate : ℕ → Str → Option Str) (entries : List ZipEntry) :
    ((createToFile opened time date files deflate entries).1 = true → Exact time date files deflate entries) ↔
      opened = false ∨ (∃ entry ∈ entries, readFileContents files entry.filePath = none) ∨
        Representable files deflate entries := by
  rw [createToFile_true_iff]
  by_cases hread : ∀ entry ∈ entries, (readFileContents files entry.filePath).isSome
  · have hnone : ¬ ∃ entry ∈ entries, readFileContents files entry.filePath = none := by
      rintro ⟨entry, hentry, hnone⟩
      have hsome := hread entry hentry
      rw [hnone] at hsome
      exact absurd hsome (by simp)
    rw [exact_iff_representable time date hread]
    cases opened with
    | false => simp
    | true =>
      simp only [hnone, Bool.true_eq_false, false_or, true_and]
      exact ⟨fun h => h hread, fun h _ => h⟩
  · have hnone : ∃ entry ∈ entries, readFileContents files entry.filePath = none := by
      push Not at hread
      obtain ⟨entry, hentry, hnone⟩ := hread
      exact ⟨entry, hentry, by simpa using hnone⟩
    simp only [hread, and_false, false_implies, hnone, true_or, or_true]

/-- One song, asked for `2 ^ 16` times, is an archive of no entries. -/
theorem count_lost :
    (createToFile true noon noon (zeros 1) (fun _ => deflateOne)
        (List.replicate (2 ^ 16) ⟨lit "a", lit "a"⟩)).1 = true ∧
      ¬ Exact noon noon (zeros 1) (fun _ => deflateOne) (List.replicate (2 ^ 16) ⟨lit "a", lit "a"⟩) := by
  have hread : ∀ entry ∈ List.replicate (2 ^ 16) (⟨lit "a", lit "a"⟩ : ZipEntry),
      (readFileContents (zeros 1) entry.filePath).isSome := fun _ _ => rfl
  refine ⟨createToFile_true_iff.2 ⟨rfl, hread⟩, fun hexact => ?_⟩
  have hcount := ((exact_iff_representable noon noon hread).1 hexact).count
  rw [List.length_replicate] at hcount
  exact absurd hcount (by decide)

end NarMusic.Zip
