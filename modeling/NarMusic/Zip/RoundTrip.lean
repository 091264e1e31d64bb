/-
  An archive is read back (`createToFile_read`).

  The invariant of the loop over the entries: what has been written holds a local record
  for each directory entry so far, at its offset and with the data of its file
  (`writeEntry_stored`, `writeEntries_stored`).  Lengths and offsets stay below `2 ^ 32`
  because the finished archive does.

  The sizes of the format have 32 bits and so has the length `deflate` is given: a source
  file of `2 ^ 32` bytes is written as an empty one (`huge_file_lost`).
-/
import NarMusic.Zip.Reader

namespace NarMusic.Zip

open Cxx Binary

variable {inflate : Str → Option Str}

/-! ## One entry -/

/-- What is packed can be unpacked, whether `deflate` fails or not. -/
theorem pack_spec {deflate : Str → Option Str} {content : Str}
    (hzlib : ∀ data z, deflate data = some z → inflate z = some data) (hcontent : content.length < 2 ^ 32)
    (hpacked : (pack deflate content).compressedData.length < 2 ^ 32) :
    unpack inflate (pack deflate content).compression (pack deflate content).compressedData = some content ∧
      (pack deflate content).compressedData.length = (pack deflate content).compressedSize.toNat := by
  have hlen : (UInt32.ofNat content.length).toNat = content.length := UInt32.toNat_ofNat_of_lt' hcontent
  by_cases hpos : UInt32.ofNat content.length > 0
  · cases hdeflate : deflate content with
    | none =>
      have hpack : pack deflate content = ⟨0, .ofNat content.length, content⟩ := by
        simp [pack, hpos, hlen, hdeflate]
      rw [hpack]
      exact ⟨by simp [unpack], hlen.symm⟩
    | some data =>
      have hpack : pack deflate content = ⟨8, .ofNat data.length, data⟩ := by
        simp [pack, hpos, hlen, hdeflate]
      rw [hpack] at hpacked ⊢
      exact ⟨by simp [unpack, hzlib content data hdeflate], (UInt32.toNat_ofNat_of_lt' hpacked).symm⟩
  · have hnil : content = [] := by
      have hzero : (UInt32.ofNat content.length).toNat = 0 := by
        rw [gt_iff_lt, UInt32.lt_iff_toNat_lt] at hpos
        simpa using hpos
      rw [hlen] at hzero
      exact List.eq_nil_of_length_eq_zero hzero
    subst hnil
    exact ⟨by simp [pack, unpack], by simp [pack]⟩

theorem centralDirEntry_describes {deflate : Str → Option Str} {entry : ZipEntry} {content : Str}
    (hzlib : ∀ data z, deflate data = some z → inflate z = some data)
    (hname : entry.filename.length < 65536) (hcontent : content.length < 2 ^ 32)
    (hpacked : (pack deflate content).compressedData.length < 2 ^ 32) (modTime modDate : UInt16)
    (offset : ℕ) :
    (centralDirEntry modTime modDate entry content (pack deflate content) offset).Describes inflate
      entry.filename content (pack deflate content).compressedData := by
  have hlen : (UInt32.ofNat content.length).toNat = content.length := UInt32.toNat_ofNat_of_lt' hcontent
  obtain ⟨hunpack, hsize⟩ := pack_spec hzlib hcontent hpacked
  exact {
    filename := rfl
    filenameLen := (UInt16.toNat_ofNat_of_lt' hname).symm
    extraLen := rfl
    commentLen := rfl
    crc := by
      show (if UInt32.ofNat content.length > 0 then crc32Calc content content.length else 0) = _
      split_ifs with hpos
      · rw [crc32Calc, hlen, List.take_length]
      · have hzero : content.length = 0 := by
          rw [gt_iff_lt, UInt32.lt_iff_toNat_lt, hlen] at hpos
          simpa using hpos
        rw [List.eq_nil_of_length_eq_zero hzero, crc32_nil]
    compressedSize := hsize
    uncompressedSize := hlen.symm
    unpacked := hunpack }

/-- The local records of the files in `done` lie in the output, in the order of the directory. -/
def Holds (inflate : Str → Option Str) (w : Writer) (done : List (Str × Str)) : Prop :=
  List.Forall₂ (fun cd file => Stored inflate w.out cd file.1 file.2) w.centralDir done

variable {modTime modDate : UInt16}

/-- The step of the loop. -/
theorem writeEntry_stored {deflate : Str → Option Str} {w : Writer} {entry : ZipEntry} {content : Str}
    {done : List (Str × Str)} (hzlib : ∀ data z, deflate data = some z → inflate z = some data)
    (hname : entry.filename.length < 65536) (hcontent : content.length < 2 ^ 32)
    (hout : (writeEntry modTime modDate deflate w entry content).out.length < 2 ^ 32)
    (hw : Holds inflate w done) :
    Holds inflate (writeEntry modTime modDate deflate w entry content) (done ++ [(entry.filename, content)]) := by
  let packed := pack deflate content
  let cd := centralDirEntry modTime modDate entry content packed w.out.length
  have hlen : w.out.length + ((localHeader cd).length + entry.filename.length +
      packed.compressedData.length) < 2 ^ 32 := by
    simpa only [writeEntry, List.length_append] using hout
  have hpacked : packed.compressedData.length < 2 ^ 32 := by omega
  have hoffset : w.out.length < 2 ^ 32 := by omega
  have hdesc := centralDirEntry_describes hzlib hname hcontent hpacked modTime modDate w.out.length
  refine List.rel_append (hw.imp fun _ _ h => h.append _) (.cons ?_ .nil)
  refine ⟨w.out, packed.compressedData, [], ?_, ?_, hdesc⟩
  · rw [List.append_nil]
    rfl
  · exact (UInt32.toNat_ofNat_of_lt' hoffset).symm

/-! ## The loop -/

variable {files : Str → Option Str} {deflate : ℕ → Str → Option Str}

theorem writeEntries_length (entries : List ZipEntry) (i : ℕ) (w : Writer) :
    w.out.length ≤ (writeEntries modTime modDate files deflate i entries w).2.out.length := by
  induction entries generalizing i w with
  | nil => exact le_rfl
  | cons entry entries ih =>
    unfold writeEntries
    cases readFileContents files entry.filePath with
    | none => exact le_rfl
    | some content =>
      refine le_trans ?_ (ih (i + 1) _)
      simp [writeEntry]

/-- What the archive is to give back. -/
def sources (files : Str → Option Str) (entries : List ZipEntry) : List (Str × Option Str) :=
  entries.map fun entry => (entry.filename, readFileContents files entry.filePath)

theorem writeEntries_stored {entries : List ZipEntry} {i : ℕ} {w : Writer} {done : List (Str × Str)}
    (hzlib : ∀ i data z, deflate i data = some z → inflate z = some data)
    (hnames : ∀ entry ∈ entries, entry.filename.length < 65536)
    (hread : ∀ entry ∈ entries, ∃ content, readFileContents files entry.filePath = some content ∧
      content.length < 2 ^ 32)
    (hout : (writeEntries modTime modDate files deflate i entries w).2.out.length < 2 ^ 32)
    (hw : Holds inflate w done) :
    (writeEntries modTime modDate files deflate i entries w).1 = true ∧
      ∃ more, more.map (fun file => (file.1, some file.2)) = sources files entries ∧
        Holds inflate (writeEntries modTime modDate files deflate i entries w).2 (done ++ more) := by
  induction entries generalizing i w done with
  | nil =>
    refine ⟨rfl, [], rfl, ?_⟩
    rw [List.append_nil]
    exact hw
  | cons entry entries ih =>
    obtain ⟨hname, hnames⟩ := List.forall_mem_cons.1 hnames
    obtain ⟨⟨content, hsome, hcontent⟩, hread⟩ := List.forall_mem_cons.1 hread
    simp only [writeEntries, hsome] at hout ⊢
    have hstep := writeEntry_stored (hzlib i) hname hcontent
      (lt_of_le_of_lt (writeEntries_length entries (i + 1) _) hout) hw
    obtain ⟨htrue, more, hmore, hholds⟩ := ih hnames hread hout hstep
    refine ⟨htrue, (entry.filename, content) :: more, ?_, ?_⟩
    · simp only [List.map_cons, hmore, sources, hsome]
    · rwa [List.append_assoc] at hholds

/-- The output is at least what the loop has written. -/
theorem out_le_createToFile (time date : Tm) (entries : List ZipEntry) :
    (writeEntries (dosTime time) (dosDate date) files deflate 0 entries {}).2.out.length ≤
      (createToFile true time date files deflate entries).2.length := by
  unfold createToFile
  rcases writeEntries (dosTime time) (dosDate date) files deflate 0 entries {} with ⟨_ | _, w⟩
  · exact le_rfl
  · show w.out.length ≤ (finish w).length
    rw [finish_length]
    omega

/-- **ZIP round trip.** -/
theorem createToFile_read (time date : Tm) (files : Str → Option Str) (deflate : ℕ → Str → Option Str)
    (inflate : Str → Option Str) (entries : List ZipEntry)
    (hzlib : ∀ i data z, deflate i data = some z → inflate z = some data)
    (hcount : entries.length < 65536) (hnames : ∀ entry ∈ entries, entry.filename.length < 65536)
    (hread : ∀ entry ∈ entries, ∃ content, readFileContents files entry.filePath = some content ∧
      content.length < 2 ^ 32)
    (hsize : (createToFile true time date files deflate entries).2.length < 2 ^ 32) :
    (createToFile true time date files deflate entries).1 = true ∧
      ∃ members, readArchive inflate (createToFile true time date files deflate entries).2 = some members ∧
        members.map (fun m => (m.central.filename, some m.content)) = sources files entries ∧
        ∀ m ∈ members, m.Sound := by
  have hout := lt_of_le_of_lt (out_le_createToFile time date entries) hsize
  have hstart : Holds inflate {} [] := .nil
  obtain ⟨htrue, more, hmore, hholds⟩ := writeEntries_stored hzlib hnames hread hout hstart
  rw [List.nil_append] at hholds
  rcases hresult : writeEntries (dosTime time) (dosDate date) files deflate 0 entries {} with ⟨returned, w⟩
  rw [hresult] at htrue hholds
  obtain rfl : returned = true := htrue
  have hcreate : createToFile true time date files deflate entries = (true, finish w) := by
    simp [createToFile, hresult]
  rw [hcreate] at hsize ⊢
  have hdir : w.centralDir.length < 65536 := by
    have hlength := congrArg List.length hmore
    simp only [sources, List.length_map] at hlength
    rw [hholds.length_eq, hlength]
    exact hcount
  obtain ⟨members, hmembers, hfiles, hsound⟩ := readArchive_laid_out hholds hdir hsize
  refine ⟨rfl, members, hmembers, ?_, hsound⟩
  rw [← hmore, ← hfiles, List.map_map]
  rfl

/-! ## An archive of three files, and a file that is too long -/

/-- The first file is deflated, the second one stored, and the third one is empty. -/
def threeFiles (path : Str) : Option Str :=
  if path = lit "1" then some (lit "a") else if path = lit "2" then some (lit "bc") else some []

theorem threeFiles_small (path : Str) : ∃ content, threeFiles path = some content ∧ content.length < 2 ^ 32 := by
  unfold threeFiles
  split_ifs
  · exact ⟨_, rfl, by decide⟩
  · exact ⟨_, rfl, by decide⟩
  · exact ⟨_, rfl, by decide⟩

def threeEntries : List ZipEntry :=
  [⟨lit "a.m4a", lit "1"⟩, ⟨lit "歌.m4a", lit "2"⟩, ⟨lit "c.m4a", lit "3"⟩]

/-- `deflate` of one byte, and a failure for everything else. -/
def deflateOne (data : Str) : Option Str := if data = lit "a" then some [0x4b, 0x04, 0x00] else none

def inflateOne (z : Str) : Option Str := if z = [0x4b, 0x04, 0x00] then some (lit "a") else none

theorem inflateOne_deflateOne {data z : Str} (h : deflateOne data = some z) : inflateOne z = some data := by
  unfold deflateOne at h
  split_ifs at h with hdata
  cases h
  rw [hdata]
  rfl

def noon : Tm := ⟨12, 0, 0, 124, 0, 1⟩

theorem three_files_read :
    (createToFile true noon noon threeFiles (fun _ => deflateOne) threeEntries).1 = true ∧
      ∃ members, readArchive inflateOne
          (createToFile true noon noon threeFiles (fun _ => deflateOne) threeEntries).2 = some members ∧
        members.map (fun m => (m.central.filename, some m.content)) = sources threeFiles threeEntries ∧
        ∀ m ∈ members, m.Sound := by
  refine createToFile_read noon noon threeFiles (fun _ => deflateOne) inflateOne threeEntries
    (fun _ _ _ => inflateOne_deflateOne) (by decide) (by decide) ?_ (by decide +kernel)
  intro entry _
  exact threeFiles_small _

/-- A file whose length is cast to 0 is written as an empty one. -/
theorem writeEntry_wrapped {deflate : Str → Option Str} {w : Writer} {entry : ZipEntry} {content : Str}
    (h : UInt32.ofNat content.length = 0) :
    writeEntry modTime modDate deflate w entry content = writeEntry modTime modDate deflate w entry [] := by
  simp [writeEntry, centralDirEntry, pack, h]

/-- One file of `n` zero bytes. -/
def zeros (n : ℕ) (_ : Str) : Option Str := some (List.replicate n 0)

theorem zeros_lost {n : ℕ} (hn : n ≠ 0) (hwrap : UInt32.ofNat n = 0) :
    (createToFile true noon noon (zeros n) (fun _ => deflateOne) [⟨lit "a", lit "a"⟩]).2.length < 2 ^ 32 ∧
      ¬ ∃ members, readArchive inflateOne
          (createToFile true noon noon (zeros n) (fun _ => deflateOne) [⟨lit "a", lit "a"⟩]).2 = some members ∧
        members.map (fun m => (m.central.filename, some m.content)) = sources (zeros n) [⟨lit "a", lit "a"⟩] := by
  have hlen : UInt32.ofNat (List.replicate n (0 : Byte)).length = 0 := by rw [List.length_replicate, hwrap]
  have hempty : createToFile true noon noon (zeros n) (fun _ => deflateOne) [⟨lit "a", lit "a"⟩] =
      createToFile true noon noon (zeros 0) (fun _ => deflateOne) [⟨lit "a", lit "a"⟩] := by
    simp only [createToFile, writeEntries, readFileContents, zeros, writeEntry_wrapped hlen,
      List.replicate_zero]
  rw [hempty]
  have hsmall : (createToFile true noon noon (zeros 0) (fun _ => deflateOne)
      [⟨lit "a", lit "a"⟩]).2.length < 2 ^ 32 := by decide +kernel
  refine ⟨hsmall, ?_⟩
  rintro ⟨members, hmembers, hfiles⟩
  have hread : (readArchive inflateOne (createToFile true noon noon (zeros 0) (fun _ => deflateOne)
      [⟨lit "a", lit "a"⟩]).2).map (·.map (·.content)) = some [[]] := by decide +kernel
  have hcontents : members.map (fun m => some m.content) = [some (List.replicate n 0)] := by
    have hsnd := congrArg (List.map Prod.snd) hfiles
    rwa [List.map_map] at hsnd
  rw [hmembers, Option.map_some, Option.some.injEq] at hread
  have hsome := congrArg (List.map some) hread
  rw [List.map_map] at hsome
  have hreplicate : [some (List.replicate n (0 : Byte))] = [some []] := hcontents.symm.trans hsome
  simp [hn] at hreplicate

theorem huge_file_lost :
    (createToFile true noon noon (zeros (2 ^ 32)) (fun _ => deflateOne) [⟨lit "a", lit "a"⟩]).2.length < 2 ^ 32 ∧
      ¬ ∃ members, readArchive inflateOne
          (createToFile true noon noon (zeros (2 ^ 32)) (fun _ => deflateOne) [⟨lit "a", lit "a"⟩]).2 =
            some members ∧
        members.map (fun m => (m.central.filename, some m.content)) =
          sources (zeros (2 ^ 32)) [⟨lit "a", lit "a"⟩] :=
  zeros_lost (by decide) (by decide)

end NarMusic.Zip
