/-
  The music library (`domain/music_library_entry.h`,
  `infrastructure/persistence/sqlite_music_library_repository.cpp`): the table
  `music_files`, and the files on disk that its rows name.

  The primary key is `AUTOINCREMENT`, so a new row has an id above every id given
  out before.  Ids are integers without a bound here, and `int`s in the code: the
  operations are those of the code as long as the ids that are given out fit, which
  `LibraryStore` shows for each statement.  The disk is the set of the paths of its
  files.
-/
import Mathlib.Data.Finset.Basic
import NarMusic.Download.Task

namespace NarMusic

open Cxx

structure MusicLibraryEntry where
  id : ℤ := 0
  songName : Str := []
  artist : Str := []
  album : Str := []
  filePath : Str := []
  systemFilename : Str := []
  originalFilename : Str := []
  lyrics : Str := []
  fileSize : ℤ := 0
  platform : Str := []
  delayMs : ℤ := 0
  inUse : Bool := false
  downloadedAt : Time
  lastUsedAt : Time

/-- The columns of a row of `music_files`. -/
structure LibraryRow where
  id : ℤ
  songName : Str
  artist : Str
  album : Str
  filePath : Str
  systemFilename : Str
  originalFilename : Option Str
  fileSize : ℤ
  delayMs : ℤ
  platform : Str
  inUse : Bool
  downloadedAt : ℤ
  lastUsedAt : ℤ
  lyrics : Option Str
  deriving DecidableEq

namespace LibraryRow

/-- A text column that is `NULL` for the empty string. -/
def bindOptional (s : Str) : Option Str := if s = [] then none else some (cStr s)

/-- The row `id` with the columns that `save` and `update` bind. -/
def ofEntry (id : ℤ) (entry : MusicLibraryEntry) : LibraryRow where
  id
  songName := cStr entry.songName
  artist := cStr entry.artist
  album := cStr entry.album
  filePath := cStr entry.filePath
  systemFilename := cStr entry.systemFilename
  originalFilename := bindOptional entry.originalFilename
  fileSize := entry.fileSize
  delayMs := entry.delayMs
  platform := cStr entry.platform
  inUse := entry.inUse
  downloadedAt := entry.downloadedAt.seconds
  lastUsedAt := entry.lastUsedAt.seconds
  lyrics := bindOptional entry.lyrics

/-- `system_clock::from_time_t`. -/
def fromTimeT (seconds : ℤ) : Time := seconds * 10 ^ 9

def readRow (row : LibraryRow) : MusicLibraryEntry where
  id := row.id
  songName := row.songName
  artist := row.artist
  album := row.album
  filePath := row.filePath
  systemFilename := row.systemFilename
  originalFilename := row.originalFilename.getD []
  lyrics := row.lyrics.getD []
  fileSize := row.fileSize
  platform := row.platform
  delayMs := row.delayMs
  inUse := row.inUse
  downloadedAt := fromTimeT row.downloadedAt
  lastUsedAt := fromTimeT row.lastUsedAt

end LibraryRow

/-- The table `music_files`; `seq` is the largest id it has given out. -/
structure LibraryTable where
  rows : List LibraryRow
  seq : ℤ
  nodup : (rows.map LibraryRow.id).Nodup
  le_seq : ∀ row ∈ rows, row.id ≤ seq
  plain : ∀ row ∈ rows, cStr row.filePath = row.filePath

namespace LibraryTable

def empty : LibraryTable := ⟨[], 0, List.nodup_nil, by simp, by simp⟩

def save (table : LibraryTable) (entry : MusicLibraryEntry) : ℤ × LibraryTable :=
  (table.seq + 1,
    { rows := table.rows ++ [.ofEntry (table.seq + 1) entry]
      seq := table.seq + 1
      nodup := by
        rw [List.map_append, List.nodup_append]
        refine ⟨table.nodup, List.nodup_cons.2 ⟨by simp, List.nodup_nil⟩, ?_⟩
        rintro id hid id' hid' rfl
        obtain ⟨row, hrow, rfl⟩ := List.mem_map.1 hid
        have hle := table.le_seq row hrow
        have heq : row.id = table.seq + 1 := List.mem_singleton.1 hid'
        omega
      le_seq := by
        intro row hrow
        rcases List.mem_append.1 hrow with hrow | hrow
        · exact (table.le_seq row hrow).trans (by omega)
        · obtain rfl := List.mem_singleton.1 hrow
          exact le_rfl
      plain := by
        intro row hrow
        rcases List.mem_append.1 hrow with hrow | hrow
        · exact table.plain row hrow
        · obtain rfl := List.mem_singleton.1 hrow
          exact cStr_cStr entry.filePath })

/-- `UPDATE ... WHERE id = ?`. -/
def update (table : LibraryTable) (entry : MusicLibraryEntry) : LibraryTable where
  rows := table.rows.map fun row => if row.id = entry.id then .ofEntry entry.id entry else row
  seq := table.seq
  nodup := by
    have hid : LibraryRow.id ∘ (fun row : LibraryRow =>
        if row.id = entry.id then .ofEntry entry.id entry else row) = LibraryRow.id := by
      funext row
      simp only [Function.comp]
      split_ifs with h
      · exact h.symm
      · rfl
    rw [List.map_map, hid]
    exact table.nodup
  le_seq := by
    intro row hrow
    obtain ⟨old, hold, rfl⟩ := List.mem_map.1 hrow
    have hle := table.le_seq old hold
    split_ifs with h
    · exact h ▸ hle
    · exact hle
  plain := by
    intro row hrow
    obtain ⟨old, hold, rfl⟩ := List.mem_map.1 hrow
    split_ifs
    · exact cStr_cStr entry.filePath
    · exact table.plain old hold

/-- `DELETE ... WHERE id = ?`. -/
def delete (table : LibraryTable) (id : ℤ) : LibraryTable where
  rows := table.rows.filter (·.id ≠ id)
  seq := table.seq
  nodup := table.nodup.sublist (List.filter_sublist.map _)
  le_seq row hrow := table.le_seq row (List.mem_filter.1 hrow).1
  plain row hrow := table.plain row (List.mem_filter.1 hrow).1

/-- `UPDATE ... SET in_use = 1, last_used_at = ? WHERE id = ?`. -/
def markUsed (table : LibraryTable) (id : ℤ) (now : Time) : LibraryTable where
  rows := table.rows.map fun row =>
    if row.id = id then { row with inUse := true, lastUsedAt := now.seconds } else row
  seq := table.seq
  nodup := by
    have hid : LibraryRow.id ∘ (fun row : LibraryRow =>
        if row.id = id then { row with inUse := true, lastUsedAt := now.seconds } else row) =
          LibraryRow.id := by
      funext row
      simp only [Function.comp]
      split_ifs <;> rfl
    rw [List.map_map, hid]
    exact table.nodup
  le_seq := by
    intro row hrow
    obtain ⟨old, hold, rfl⟩ := List.mem_map.1 hrow
    have hle := table.le_seq old hold
    split_ifs <;> exact hle
  plain := by
    intro row hrow
    obtain ⟨old, hold, rfl⟩ := List.mem_map.1 hrow
    have hplain := table.plain old hold
    split_ifs <;> exact hplain

def findById (table : LibraryTable) (id : ℤ) : Option MusicLibraryEntry :=
  (table.rows.find? (·.id = id)).map (·.readRow)

/-- `tie` says which of the rows with the name the database answers. -/
def findBySystemFilename (table : LibraryTable) (tie : ℕ) (filename : Str) : Option MusicLibraryEntry :=
  let rows := table.rows.filter (·.systemFilename = cStr filename)
  rows[tie % rows.length]?.map (·.readRow)

def countByFilePath (table : LibraryTable) (filePath : Str) : ℕ :=
  table.rows.countP (·.filePath = cStr filePath)

def findExpired (table : LibraryTable) (maxAgeSeconds : ℤ) (now : Time) : List MusicLibraryEntry :=
  if maxAgeSeconds ≤ 0 then []
  else
    (table.rows.filter fun row =>
      row.lastUsedAt < now.seconds - maxAgeSeconds ∧ row.inUse = false).map (·.readRow)

/-- The rows of a song, and of these the ones downloaded last. -/
def latest (table : LibraryTable) (songName artist platform : Str) (delayMs : ℤ) : List LibraryRow :=
  let rows := table.rows.filter fun row =>
    row.songName = cStr songName ∧ row.artist = cStr artist ∧ row.platform = cStr platform ∧
      row.delayMs = delayMs
  rows.filter fun row => ∀ other ∈ rows, other.downloadedAt ≤ row.downloadedAt

/-- `ORDER BY downloaded_at DESC LIMIT 1`: `tie` says which of the rows downloaded in the same
    second the database answers. -/
def findBySongArtistPlatformDelay (table : LibraryTable) (tie : ℕ) (songName artist platform : Str)
    (delayMs : ℤ) : Option MusicLibraryEntry :=
  let rows := table.latest songName artist platform delayMs
  rows[tie % rows.length]?.map (·.readRow)

/-- `ORDER BY downloaded_at DESC`; `rank` orders the rows that were downloaded in the same second. -/
def findAll (rank : LibraryRow → ℕ) (table : LibraryTable) : List MusicLibraryEntry :=
  (table.rows.mergeSort fun a b =>
    decide (b.downloadedAt < a.downloadedAt ∨ a.downloadedAt = b.downloadedAt ∧ rank a ≤ rank b)).map (·.readRow)

theorem mem_update {table : LibraryTable} {entry : MusicLibraryEntry} {row : LibraryRow}
    (h : row ∈ (table.update entry).rows) :
    (row ∈ table.rows ∧ row.id ≠ entry.id) ∨ row = .ofEntry entry.id entry := by
  obtain ⟨old, hold, rfl⟩ := List.mem_map.1 h
  split_ifs with hid
  · exact Or.inr rfl
  · exact Or.inl ⟨hold, hid⟩

theorem mem_update_of_ne {table : LibraryTable} {entry : MusicLibraryEntry} {row : LibraryRow}
    (hrow : row ∈ table.rows) (hid : row.id ≠ entry.id) : row ∈ (table.update entry).rows :=
  List.mem_map.2 ⟨row, hrow, if_neg hid⟩

/-- A row is marked, or as it was. -/
theorem mem_markUsed {table : LibraryTable} {id : ℤ} {now : Time} {row : LibraryRow}
    (h : row ∈ (table.markUsed id now).rows) :
    (row ∈ table.rows ∧ row.id ≠ id) ∨
      ∃ old ∈ table.rows, old.id = id ∧ row = { old with inUse := true, lastUsedAt := now.seconds } := by
  obtain ⟨old, hold, rfl⟩ := List.mem_map.1 h
  split_ifs with hid
  · exact Or.inr ⟨old, hold, hid, rfl⟩
  · exact Or.inl ⟨hold, hid⟩

theorem mem_delete {table : LibraryTable} {id : ℤ} {row : LibraryRow} :
    row ∈ (table.delete id).rows ↔ row ∈ table.rows ∧ row.id ≠ id := by
  simp [delete]

/-- Where at most one row has the path, it is the row with that id. -/
theorem filePath_unique {table : LibraryTable} {id : ℤ} {entry : MusicLibraryEntry}
    (hfind : table.findById id = some entry) (hcount : table.countByFilePath entry.filePath ≤ 1) :
    ∀ row ∈ table.rows, row.id ≠ id → row.filePath ≠ entry.filePath := by
  obtain ⟨old, hold, rfl⟩ := Option.map_eq_some_iff.1 hfind
  have hmem := List.mem_of_find?_eq_some hold
  have hid := List.find?_some hold
  have hplain : cStr old.filePath = old.filePath := table.plain old hmem
  intro row hrow hne hpath
  have hlen : (table.rows.filter (·.filePath = cStr old.filePath)).length ≤ 1 := by
    rw [← List.countP_eq_length_filter]
    exact hcount
  have h1 : old ∈ table.rows.filter (·.filePath = cStr old.filePath) :=
    List.mem_filter.2 ⟨hmem, decide_eq_true hplain.symm⟩
  have h2 : row ∈ table.rows.filter (·.filePath = cStr old.filePath) :=
    List.mem_filter.2 ⟨hrow, decide_eq_true (hpath.trans hplain.symm)⟩
  -- a list of at most one row that has both
  rcases hl : table.rows.filter (·.filePath = cStr old.filePath) with _ | ⟨x, _ | ⟨y, l⟩⟩
  · rw [hl] at h1
    cases h1
  · rw [hl] at h1 h2
    obtain rfl := List.mem_singleton.1 h1
    obtain rfl := List.mem_singleton.1 h2
    exact hne (of_decide_eq_true hid)
  · rw [hl, List.length_cons, List.length_cons] at hlen
    omega

end LibraryTable

/-- `fs::remove`, which throws for a path in `denied`. -/
def removeFile (denied : Finset Str) (disk : Finset Str) (path : Str) : Finset Str :=
  if path ∈ denied then disk else disk.erase path

/-- The library and the disk. -/
structure Shelf where
  table : LibraryTable
  disk : Finset Str

namespace Shelf

/-- `SqliteMusicLibraryRepository::remove`. -/
def remove (denied : Finset Str) (shelf : Shelf) (id : ℤ) : Shelf :=
  match shelf.table.findById id with
  | none => shelf
  | some entry =>
    { table := shelf.table.delete id
      disk :=
        if shelf.table.countByFilePath entry.filePath ≤ 1 ∧ entry.filePath ≠ [] then
          removeFile denied shelf.disk entry.filePath
        else shelf.disk }

/-- `LibraryService::deleteFiles`. -/
def deleteFiles (denied : Finset Str) (shelf : Shelf) (ids : List ℤ) : Shelf :=
  ids.foldl (remove denied) shelf

def removeExpired (denied : Finset Str) (shelf : Shelf) (maxAgeSeconds : ℤ) (now : Time) : Shelf :=
  deleteFiles denied shelf ((shelf.table.findExpired maxAgeSeconds now).map (·.id))

/-! ## What a removal takes from the disk -/

/-- No row that is left has the path of a file that is gone. -/
def Spares (before after : Shelf) : Prop :=
  ∀ path ∈ before.disk, path ∉ after.disk → ∀ row ∈ after.table.rows, row.filePath ≠ path

instance (before after : Shelf) : Decidable (before.Spares after) :=
  inferInstanceAs (Decidable (∀ path ∈ before.disk, path ∉ after.disk →
    ∀ row ∈ after.table.rows, row.filePath ≠ path))

theorem mem_removeFile {denied disk : Finset Str} {path p : Str} :
    p ∈ removeFile denied disk path ↔ p ∈ disk ∧ (p = path → path ∈ denied) := by
  unfold removeFile
  split_ifs with h
  · simp [h]
  · simp [h, and_comm]

theorem remove_subset (denied : Finset Str) (shelf : Shelf) (id : ℤ) :
    ∀ row ∈ (shelf.remove denied id).table.rows, row ∈ shelf.table.rows := by
  unfold remove
  split
  · exact fun _ h => h
  · exact fun _ h => (LibraryTable.mem_delete.1 h).1

/-- A removal gives out no id and adds no row. -/
theorem remove_counts (denied : Finset Str) (shelf : Shelf) (id : ℤ) :
    (shelf.remove denied id).table.seq = shelf.table.seq ∧
      (shelf.remove denied id).table.rows.length ≤ shelf.table.rows.length := by
  unfold remove
  split
  · exact ⟨rfl, le_rfl⟩
  · exact ⟨rfl, List.length_filter_le _ _⟩

theorem deleteFiles_counts (denied : Finset Str) (shelf : Shelf) (ids : List ℤ) :
    (shelf.deleteFiles denied ids).table.seq = shelf.table.seq ∧
      (shelf.deleteFiles denied ids).table.rows.length ≤ shelf.table.rows.length := by
  induction ids generalizing shelf with
  | nil => exact ⟨rfl, le_rfl⟩
  | cons id ids ih =>
    obtain ⟨hseq, hlen⟩ := shelf.remove_counts denied id
    obtain ⟨hseq', hlen'⟩ := ih (shelf.remove denied id)
    exact ⟨hseq'.trans hseq, hlen'.trans hlen⟩

theorem remove_spares (denied : Finset Str) (shelf : Shelf) (id : ℤ) :
    shelf.Spares (shelf.remove denied id) := by
  intro path hpath hgone row hrow
  unfold remove at hgone hrow
  split at hgone
  · exact absurd hpath hgone
  · next entry hfind =>
    rw [hfind] at hrow
    obtain ⟨hrow, hne⟩ := LibraryTable.mem_delete.1 hrow
    dsimp only at hgone
    split_ifs at hgone with hcount
    · have heq : path = entry.filePath := by
        by_contra hother
        exact hgone (mem_removeFile.2 ⟨hpath, fun h => absurd h hother⟩)
      exact heq ▸ LibraryTable.filePath_unique hfind hcount.1 row hrow hne
    · exact absurd hpath hgone

/-- Removals in a row: what a later one leaves, an earlier one has left. -/
theorem deleteFiles_spares (denied : Finset Str) (ids : List ℤ) (shelf : Shelf) :
    shelf.Spares (shelf.deleteFiles denied ids) ∧
      ∀ row ∈ (shelf.deleteFiles denied ids).table.rows, row ∈ shelf.table.rows := by
  induction ids generalizing shelf with
  | nil => exact ⟨fun _ h hgone => absurd h hgone, fun _ h => h⟩
  | cons id ids ih =>
    obtain ⟨hspares, hsub⟩ := ih (shelf.remove denied id)
    constructor
    · intro path hpath hgone row hrow
      by_cases hleft : path ∈ (shelf.remove denied id).disk
      · exact hspares path hleft hgone row hrow
      · exact remove_spares denied shelf id path hpath hleft row (hsub row hrow)
    · intro row hrow
      exact remove_subset denied shelf id row (hsub row hrow)

end Shelf

end NarMusic
