/-
  The statements of `SqliteMusicLibraryRepository`, with their parameters and columns
  by position.

  * The id of a row has 64 bits, an id of the interface is an `int`: `save` returns
    the low 32 bits of the id it has given out, which is another id once there have
    been 2³¹ of them (`wrapped_save`).
  * Below that, what is saved or updated comes back, with its times in seconds, and no
    other id is touched (`given_back`).
  * There the statements do what the operations and the queries of `LibraryTable` do
    (`Represents`), and so does every run of them (`run_holds`).
-/
import NarMusic.Download.Library
import NarMusic.Lib.Run
import NarMusic.Lib.Sql

namespace NarMusic.LibraryStore

open Cxx Sql

/-- The columns of the table `music_files`. -/
inductive Column where
  | id
  | song_name
  | artist
  | album
  | file_path
  | system_filename
  | original_filename
  | file_size
  | delay_ms
  | platform
  | in_use
  | downloaded_at
  | last_used_at
  | lyrics
  deriving DecidableEq

/-- The table `music_files`; `seq` is the largest id it has given out. -/
structure Store where
  table : Table Column.id
  seq : ℤ
  nonneg : 0 ≤ seq
  ids : ∀ row ∈ table.rows, ∃ n ≤ seq, row .id = .integer n

def Store.empty : Store := ⟨.empty, 0, le_rfl, nofun⟩

/-- The columns of `INSERT`. -/
def insertColumns : List Column :=
  [.song_name, .artist, .album, .file_path, .system_filename, .original_filename, .file_size,
    .delay_ms, .platform, .in_use, .downloaded_at, .last_used_at, .lyrics]

/-- The columns that `UPDATE` sets. -/
def updateColumns : List Column :=
  [.song_name, .artist, .album, .file_path, .system_filename, .original_filename, .file_size,
    .delay_ms, .platform, .in_use, .downloaded_at, .last_used_at, .lyrics]

/-- `kSelectColumns` -/
def selectColumns : List Column :=
  [.id, .song_name, .artist, .album, .file_path, .system_filename, .original_filename, .file_size,
    .delay_ms, .platform, .in_use, .downloaded_at, .last_used_at, .lyrics]

/-- A string that is bound as `NULL` where it is empty. -/
def optional (s : Str) : Value := if s = [] then .null else .ofStr s

/-- The parameters from 1 to 13, which `save` and `update` bind alike. -/
def bound (entry : MusicLibraryEntry) : List (ℕ × Value) :=
  [(1, .ofStr entry.songName), (2, .ofStr entry.artist), (3, .ofStr entry.album),
    (4, .ofStr entry.filePath), (5, .ofStr entry.systemFilename), (6, optional entry.originalFilename),
    (7, .integer entry.fileSize), (8, .integer entry.delayMs), (9, .ofStr entry.platform),
    (10, .integer (if entry.inUse then 1 else 0)), (11, .integer entry.downloadedAt.seconds),
    (12, .integer entry.lastUsedAt.seconds), (13, optional entry.lyrics)]

/-- The row of `INSERT` with the id that is given out. -/
def newRow (id : ℤ) (entry : MusicLibraryEntry) : Row Column :=
  Function.update (insertRow insertColumns (params (bound entry))) .id (.integer id)

/-- The insertion fails when the largest id of 64 bits has been given out. -/
def save (store : Store) (entry : MusicLibraryEntry) : ℤ × Store :=
  if store.seq + 1 < 2 ^ 63 then
    (int32 (store.seq + 1),
      { table := store.table.insert (newRow (store.seq + 1) entry) (by
          intro old hold heq
          obtain ⟨n, hn, hid⟩ := store.ids old hold
          have hnew := Value.integer.inj (hid.symm.trans heq)
          omega)
        seq := store.seq + 1
        nonneg := by
          have := store.nonneg
          omega
        ids := by
          intro row hrow
          rcases List.mem_append.1 hrow with hrow | hrow
          · obtain ⟨n, hn, hid⟩ := store.ids row hrow
            exact ⟨n, by omega, hid⟩
          · obtain rfl := List.mem_singleton.1 hrow
            exact ⟨store.seq + 1, le_rfl, rfl⟩ })
  else (0, store)

theorem assign_id (ps : ℕ → Value) (row : Row Column) : assign updateColumns ps row .id = row .id :=
  assign_of_notMem (by decide) ps row

/-- `UPDATE ... WHERE id = ?` -/
def update (store : Store) (entry : MusicLibraryEntry) : Store :=
  let ps := params (bound entry ++ [(14, .integer entry.id)])
  { table := store.table.update (· .id = ps 14) (assign updateColumns ps) (assign_id ps)
    seq := store.seq
    nonneg := store.nonneg
    ids := by
      intro row hrow
      obtain ⟨old, hold, rfl⟩ := List.mem_map.1 hrow
      obtain ⟨n, hn, hid⟩ := store.ids old hold
      refine ⟨n, hn, ?_⟩
      split_ifs
      · exact hid
      · exact hid }

/-- `UPDATE ... SET in_use = 1, last_used_at = ? WHERE id = ?` -/
def markUsed (store : Store) (id : ℤ) (now : Time) : Store :=
  let ps := params [(1, .integer now.seconds), (2, .integer id)]
  { table := store.table.update (· .id = ps 2)
      (fun row => assign [.last_used_at] ps (assign [.in_use] (fun _ => .integer 1) row)) fun _ => rfl
    seq := store.seq
    nonneg := store.nonneg
    ids := by
      intro row hrow
      obtain ⟨old, hold, rfl⟩ := List.mem_map.1 hrow
      obtain ⟨n, hn, hid⟩ := store.ids old hold
      refine ⟨n, hn, ?_⟩
      split_ifs
      · exact hid
      · exact hid }

/-- `DELETE ... WHERE id = ?` -/
def delete (store : Store) (id : ℤ) : Store where
  table := store.table.delete (· .id = .integer id)
  seq := store.seq
  nonneg := store.nonneg
  ids row hrow := store.ids row (List.mem_filter.1 hrow).1

/-- `readRow` -/
def readRow (vals : List Value) : MusicLibraryEntry where
  id := (column vals 0).toInt32
  songName := (column vals 1).toStr
  artist := (column vals 2).toStr
  album := (column vals 3).toStr
  filePath := (column vals 4).toStr
  systemFilename := (column vals 5).toStr
  originalFilename := if column vals 6 ≠ .null then (column vals 6).toStr else []
  fileSize := (column vals 7).toInt
  delayMs := (column vals 8).toInt32
  platform := (column vals 9).toStr
  inUse := decide ((column vals 10).toInt32 ≠ 0)
  downloadedAt := LibraryRow.fromTimeT (column vals 11).toInt
  lastUsedAt := LibraryRow.fromTimeT (column vals 12).toInt
  lyrics := if column vals 13 ≠ .null then (column vals 13).toStr else []

def findById (store : Store) (id : ℤ) : Option MusicLibraryEntry :=
  (store.table.select (.integer id)).map fun row => readRow (project selectColumns row)

/-! ## The other queries -/

section
variable (store : Store)

/-- `WHERE system_filename = ?`; `tie` says which of the rows the database answers first. -/
def findBySystemFilename (tie : ℕ) (filename : Str) : Option MusicLibraryEntry :=
  let rows := store.table.selectWhere (· .system_filename = .ofStr filename)
  rows[tie % rows.length]?.map fun row => readRow (project selectColumns row)

/-- `SELECT COUNT(*) ... WHERE file_path = ?`, read as an `int`. -/
def countByFilePath (filePath : Str) : ℤ :=
  int32 (store.table.selectWhere (· .file_path = .ofStr filePath)).length

/-- `WHERE last_used_at < ? AND in_use = 0` -/
def findExpired (maxAgeSeconds : ℤ) (now : Time) : List MusicLibraryEntry :=
  if maxAgeSeconds ≤ 0 then []
  else
    (store.table.selectWhere fun row =>
      (row .last_used_at).toInt < now.seconds - maxAgeSeconds ∧ (row .in_use).toInt = 0).map
        fun row => readRow (project selectColumns row)

/-- `WHERE song_name = ? AND artist = ? AND platform = ? AND delay_ms = ?
    ORDER BY downloaded_at DESC LIMIT 1`; `tie` chooses among the rows downloaded last. -/
def findBySongArtistPlatformDelay (tie : ℕ) (songName artist platform : Str) (delayMs : ℤ) :
    Option MusicLibraryEntry :=
  let rows := store.table.selectWhere fun row =>
    row .song_name = .ofStr songName ∧ row .artist = .ofStr artist ∧ row .platform = .ofStr platform ∧
      row .delay_ms = .integer delayMs
  let latest := rows.filter fun row =>
    ∀ other ∈ rows, (other .downloaded_at).toInt ≤ (row .downloaded_at).toInt
  latest[tie % latest.length]?.map fun row => readRow (project selectColumns row)

/-- `ORDER BY downloaded_at DESC`; `rank` orders the rows that were downloaded in the same second. -/
def findAll (rank : Row Column → ℕ) : List MusicLibraryEntry :=
  (store.table.rows.mergeSort fun a b =>
    decide ((b .downloaded_at).toInt < (a .downloaded_at).toInt ∨
      (a .downloaded_at).toInt = (b .downloaded_at).toInt ∧ rank a ≤ rank b)).map
        fun row => readRow (project selectColumns row)

end

/-! ## Removal -/

/-- `SqliteMusicLibraryRepository::remove`, with the disk. -/
def remove (denied : Finset Str) (s : Store × Finset Str) (id : ℤ) : Store × Finset Str :=
  match findById s.1 id with
  | none => s
  | some entry =>
    (delete s.1 id,
      if countByFilePath s.1 entry.filePath ≤ 1 ∧ entry.filePath ≠ [] then removeFile denied s.2 entry.filePath
      else s.2)

def removeExpired (denied : Finset Str) (s : Store × Finset Str) (maxAgeSeconds : ℤ) (now : Time) :
    Store × Finset Str :=
  ((findExpired s.1 maxAgeSeconds now).map (·.id)).foldl (remove denied) s

/-! ## The columns of a row -/

/-- A text column that may be `NULL`. -/
def nullable : Option Str → Value
  | some s => .text s
  | none => .null

/-- The values of a row of `music_files`. -/
def columns (row : LibraryRow) : Row Column
  | .id => .integer row.id
  | .song_name => .text row.songName
  | .artist => .text row.artist
  | .album => .text row.album
  | .file_path => .text row.filePath
  | .system_filename => .text row.systemFilename
  | .original_filename => nullable row.originalFilename
  | .file_size => .integer row.fileSize
  | .delay_ms => .integer row.delayMs
  | .platform => .text row.platform
  | .in_use => .integer (if row.inUse then 1 else 0)
  | .downloaded_at => .integer row.downloadedAt
  | .last_used_at => .integer row.lastUsedAt
  | .lyrics => nullable row.lyrics

theorem optional_eq (s : Str) : optional s = nullable (LibraryRow.bindOptional s) := by
  unfold optional LibraryRow.bindOptional
  split_ifs <;> rfl

theorem newRow_eq (id : ℤ) (entry : MusicLibraryEntry) : newRow id entry = columns (.ofEntry id entry) := by
  funext c
  cases c
  case original_filename => exact optional_eq entry.originalFilename
  case lyrics => exact optional_eq entry.lyrics
  all_goals rfl

/-- The updated row is the one that `save` would make under its id. -/
theorem assign_update (entry : MusicLibraryEntry) {row : Row Column} (hid : row .id = .integer entry.id) :
    assign updateColumns (params (bound entry ++ [(14, .integer entry.id)])) row =
      columns (.ofEntry entry.id entry) := by
  funext c
  cases c
  case id => exact hid
  case original_filename => exact optional_eq entry.originalFilename
  case lyrics => exact optional_eq entry.lyrics
  all_goals rfl

/-- The row reads back: its strings have no NUL, its id and its delay are `int`s. -/
structure Readable (row : LibraryRow) : Prop where
  id : IsInt32 row.id
  songName : cStr row.songName = row.songName
  artist : cStr row.artist = row.artist
  album : cStr row.album = row.album
  filePath : cStr row.filePath = row.filePath
  systemFilename : cStr row.systemFilename = row.systemFilename
  originalFilename : ∀ s ∈ row.originalFilename, cStr s = s
  platform : cStr row.platform = row.platform
  lyrics : ∀ s ∈ row.lyrics, cStr s = s
  delayMs : IsInt32 row.delayMs

theorem nullable_toStr {t : Option Str} (h : ∀ s ∈ t, cStr s = s) :
    (if nullable t ≠ .null then (nullable t).toStr else []) = t.getD [] := by
  cases t with
  | none => rfl
  | some s => exact h s rfl

theorem readRow_columns {row : LibraryRow} (h : Readable row) :
    readRow (project selectColumns (columns row)) = row.readRow := by
  have hflag : decide (int32 (if row.inUse then 1 else 0) ≠ 0) = row.inUse := by
    cases row.inUse <;> decide
  have horiginal := nullable_toStr h.originalFilename
  have hlyrics := nullable_toStr h.lyrics
  unfold readRow LibraryRow.readRow
  simp only [project, selectColumns, List.map_cons, List.map_nil, column, List.getD_cons_zero,
    List.getD_cons_succ, columns, Value.toStr_text, Value.toInt_integer, Value.toInt32_integer,
    int32_of_isInt32 h.id, h.songName, h.artist, h.album, h.filePath, h.systemFilename, h.platform, int32_of_isInt32 h.delayMs,
    hflag, horiginal, hlyrics]

/-! ## What is saved, and what comes back -/

/-- The strings of the entry have no NUL, and its id and its delay are `int`s. -/
structure Plain (entry : MusicLibraryEntry) : Prop where
  id : IsInt32 entry.id
  songName : 0 ∉ entry.songName
  artist : 0 ∉ entry.artist
  album : 0 ∉ entry.album
  filePath : 0 ∉ entry.filePath
  systemFilename : 0 ∉ entry.systemFilename
  originalFilename : 0 ∉ entry.originalFilename
  platform : 0 ∉ entry.platform
  lyrics : 0 ∉ entry.lyrics
  delayMs : IsInt32 entry.delayMs

/-- The entry under an id, with its times in whole seconds. -/
def restored (id : ℤ) (entry : MusicLibraryEntry) : MusicLibraryEntry :=
  { entry with
    id
    downloadedAt := LibraryRow.fromTimeT entry.downloadedAt.seconds
    lastUsedAt := LibraryRow.fromTimeT entry.lastUsedAt.seconds }

theorem bindOptional_plain (s : Str) : ∀ t ∈ LibraryRow.bindOptional s, cStr t = t := by
  unfold LibraryRow.bindOptional
  split_ifs
  · nofun
  · intro t ht
    obtain rfl := Option.some.inj ht
    exact cStr_cStr s

theorem bindOptional_getD {s : Str} (h : 0 ∉ s) : (LibraryRow.bindOptional s).getD [] = s := by
  unfold LibraryRow.bindOptional
  split_ifs with hs
  · exact hs.symm
  · exact cStr_of_notMem h

theorem readable_ofEntry {id : ℤ} (hid : IsInt32 id) {entry : MusicLibraryEntry} (hdelay : IsInt32 entry.delayMs) :
    Readable (.ofEntry id entry) where
  id := hid
  songName := cStr_cStr _
  artist := cStr_cStr _
  album := cStr_cStr _
  filePath := cStr_cStr _
  systemFilename := cStr_cStr _
  originalFilename := bindOptional_plain _
  platform := cStr_cStr _
  lyrics := bindOptional_plain _
  delayMs := hdelay

theorem readRow_ofEntry {id : ℤ} (hid : IsInt32 id) {entry : MusicLibraryEntry} (h : Plain entry) :
    readRow (project selectColumns (columns (.ofEntry id entry))) = restored id entry := by
  rw [readRow_columns (readable_ofEntry hid h.delayMs)]
  simp only [LibraryRow.readRow, LibraryRow.ofEntry, restored, cStr_of_notMem h.songName,
    cStr_of_notMem h.artist, cStr_of_notMem h.album, cStr_of_notMem h.filePath,
    cStr_of_notMem h.systemFilename, cStr_of_notMem h.platform, bindOptional_getD h.originalFilename,
    bindOptional_getD h.lyrics]

theorem save_fst {store : Store} (h : store.seq + 1 < 2 ^ 63) (entry : MusicLibraryEntry) :
    (save store entry).1 = int32 (store.seq + 1) := by
  unfold save
  rw [if_pos h]

theorem save_seq {store : Store} (h : store.seq + 1 < 2 ^ 63) (entry : MusicLibraryEntry) :
    (save store entry).2.seq = store.seq + 1 := by
  unfold save
  rw [if_pos h]

theorem findById_save_self {store : Store} (h : IsInt32 (store.seq + 1)) {entry : MusicLibraryEntry}
    (hplain : Plain entry) :
    findById (save store entry).2 (store.seq + 1) = some (restored (store.seq + 1) entry) := by
  have hlt : store.seq + 1 < 2 ^ 63 := by
    have := h.2
    omega
  unfold findById save
  rw [if_pos hlt]
  dsimp only
  rw [show Value.integer (store.seq + 1) = newRow (store.seq + 1) entry .id from rfl,
    Table.select_insert_self, newRow_eq, Option.map_some, readRow_ofEntry h hplain]

/-- Saving touches the id it gives out, and no other. -/
theorem findById_save_ne (store : Store) (entry : MusicLibraryEntry) {id : ℤ} (hid : id ≠ store.seq + 1) :
    findById (save store entry).2 id = findById store id := by
  have hne : Value.integer id ≠ newRow (store.seq + 1) entry .id := fun h => hid (Value.integer.inj h)
  unfold findById save
  split_ifs
  · dsimp only
    rw [Table.select_insert_ne _ _ hne]
  · rfl

theorem findById_update (store : Store) (entry : MusicLibraryEntry) (id : ℤ) :
    findById (update store entry) id =
      if id = entry.id then
        (store.table.select (.integer id)).map fun _ =>
          readRow (project selectColumns (columns (.ofEntry entry.id entry)))
      else findById store id := by
  have hps : params (bound entry ++ [(14, .integer entry.id)]) 14 = .integer entry.id := rfl
  unfold findById update
  dsimp only
  rw [Table.select_update, Option.map_map, hps]
  split_ifs with hid
  · subst hid
    refine Option.map_congr fun row hrow => ?_
    have hkey := (Table.select_eq_some.1 hrow).2
    rw [Function.comp, if_pos hkey, assign_update entry hkey]
  · refine Option.map_congr fun row hrow => ?_
    have hkey := (Table.select_eq_some.1 hrow).2
    rw [Function.comp, if_neg fun h => hid (Value.integer.inj (hkey.symm.trans h))]

/-- An id under which the library has a row. -/
def Present (store : Store) (id : ℤ) : Prop := findById store id ≠ none

/-- What `save` gives back under the id it returns, and under the others. -/
def SaveKeeps (store : Store) (entry : MusicLibraryEntry) : Prop :=
  let saved := save store entry
  (0 < saved.1 → findById saved.2 saved.1 = some (restored saved.1 entry)) ∧
    ∀ other, IsInt32 other → other ≠ saved.1 → findById saved.2 other = findById store other

/-- What `update` gives back under the id of the entry, and under the others. -/
def UpdateKeeps (store : Store) (entry : MusicLibraryEntry) : Prop :=
  (Present store entry.id → findById (update store entry) entry.id = some (restored entry.id entry)) ∧
    ∀ other, IsInt32 other → other ≠ entry.id → findById (update store entry) other = findById store other

theorem saveKeeps (store : Store) (hfew : store.seq + 1 < 2 ^ 32) {entry : MusicLibraryEntry}
    (h : Plain entry) : SaveKeeps store entry := by
  have hlt : store.seq + 1 < 2 ^ 63 := by omega
  have hfst := save_fst hlt entry
  unfold SaveKeeps
  dsimp only
  by_cases hint : IsInt32 (store.seq + 1)
  · rw [int32_of_isInt32 hint] at hfst
    rw [hfst]
    constructor
    · intro _
      exact findById_save_self hint h
    · intro other _ hne
      exact findById_save_ne store entry hne
  · constructor
    · intro hpos
      -- the id that is returned is the one given out less 2³²
      have hnonneg := store.nonneg
      unfold IsInt32 at hint
      rw [hfst, int32, Int.bmod_def, Int.emod_eq_of_lt (by omega) (by norm_num; omega)] at hpos
      norm_num at hpos
      split_ifs at hpos <;> omega
    · intro other hother hne
      refine findById_save_ne store entry ?_
      rintro rfl
      exact hint hother

theorem updateKeeps (store : Store) {entry : MusicLibraryEntry} (h : Plain entry) :
    UpdateKeeps store entry := by
  constructor
  · intro hpresent
    rw [findById_update, if_pos rfl]
    obtain ⟨found, hfound⟩ := Option.ne_none_iff_exists'.1 hpresent
    obtain ⟨row, hrow, -⟩ := Option.map_eq_some_iff.1 hfound
    rw [hrow, Option.map_some, readRow_ofEntry h.id h]
  · intro other _ hne
    rw [findById_update, if_neg hne]

/-- **Saving and updating an entry.**  An entry that is saved while fewer than 2³² rows have been
    saved, or updated, comes back under its id, and no other id is touched. -/
theorem given_back (store : Store) {entry entry' : MusicLibraryEntry} (h : Plain entry) (h' : Plain entry') :
    (store.seq + 1 < 2 ^ 32 → SaveKeeps store entry) ∧ UpdateKeeps store entry' :=
  ⟨fun hfew => saveKeeps store hfew h, updateKeeps store h'⟩

/-! ## After 2³² songs -/

/-- The library after an entry has been saved `n` times. -/
def saves (entry : MusicLibraryEntry) : ℕ → Store
  | 0 => .empty
  | n + 1 => (save (saves entry n) entry).2

theorem saves_seq (entry : MusicLibraryEntry) {n : ℕ} (hn : n < 2 ^ 63) : (saves entry n).seq = n := by
  induction n with
  | zero => rfl
  | succ n ih =>
    have hseq := ih (by omega)
    rw [saves, save_seq (by omega), hseq]
    push_cast
    rfl

theorem findById_saves {entry : MusicLibraryEntry} (h : Plain entry) {n : ℕ} (hpos : 0 < n)
    (hn : n < 2 ^ 63) : findById (saves entry n) 1 = some (restored 1 entry) := by
  induction n with
  | zero => exact absurd hpos (lt_irrefl 0)
  | succ n ih =>
    rcases Nat.eq_zero_or_pos n with rfl | hpos
    · have hint : IsInt32 (Store.empty.seq + 1) := by
        unfold IsInt32
        decide
      exact findById_save_self hint h
    · have hseq := saves_seq entry (n := n) (by omega)
      rw [saves, findById_save_ne _ _ (by omega)]
      exact ih hpos (by omega)

/-- A row that is saved after 2³² others gets the id of the first of them. -/
theorem wrapped {first entry : MusicLibraryEntry} (h : Plain first) (hname : first.songName ≠ entry.songName)
    {n : ℕ} (hn : n = 2 ^ 32) : ¬ SaveKeeps (saves first n) entry := by
  have hseq := saves_seq first (n := n) (by omega)
  have hlt : (saves first n).seq + 1 < 2 ^ 63 := by omega
  have hid : (save (saves first n) entry).1 = 1 := by
    rw [save_fst hlt, hseq, hn]
    decide
  intro hkeeps
  have hback := hkeeps.1
  rw [hid, findById_save_ne _ _ (by omega), findById_saves h (by omega) (by omega)] at hback
  have hsame : restored 1 first = restored 1 entry := Option.some.inj (hback one_pos)
  have hsong : (restored 1 first).songName = (restored 1 entry).songName := by rw [hsame]
  exact hname hsong

/-- A song of a name. -/
def song (songName : Str) : MusicLibraryEntry where
  songName
  downloadedAt := 0
  lastUsedAt := 0

theorem song_plain {songName : Str} (h : 0 ∉ songName) : Plain (song songName) := by
  constructor <;> simp [song, h, IsInt32]

theorem wrapped_save :
    Plain (song (lit "b")) ∧ ¬ SaveKeeps (saves (song (lit "a")) (2 ^ 32)) (song (lit "b")) :=
  ⟨song_plain (by decide +kernel), wrapped (song_plain (by decide +kernel)) (by decide +kernel) rfl⟩

/-- The first song comes back, also under a new name. -/
theorem song_given_back :
    SaveKeeps .empty (song (lit "a")) ∧
      UpdateKeeps (saves (song (lit "a")) 1) { song (lit "b") with id := 1 } := by
  have hplain : Plain (song (lit "b")) := song_plain (by decide +kernel)
  refine ⟨(given_back .empty (song_plain (by decide +kernel)) hplain).1 (by decide), ?_⟩
  refine (given_back (saves (song (lit "a")) 1) hplain ?_).2
  exact { hplain with id := by unfold IsInt32; decide }

/-! ## The table of rows -/

/-- The store holds the rows of the table. -/
structure Represents (store : Store) (table : LibraryTable) : Prop where
  rows : store.table.rows = table.rows.map columns
  seq : store.seq = table.seq
  readable : ∀ row ∈ table.rows, Readable row

theorem represents_empty : Represents .empty .empty := ⟨rfl, rfl, nofun⟩

/-- As long as the ids are `int`s, `save` returns the id it gives out. -/
theorem represents_save {store : Store} {table : LibraryTable} (h : Represents store table)
    (hint : IsInt32 (table.seq + 1)) {entry : MusicLibraryEntry} (hdelay : IsInt32 entry.delayMs) :
    (save store entry).1 = (table.save entry).1 ∧
      Represents (save store entry).2 (table.save entry).2 := by
  have hint' : IsInt32 (store.seq + 1) := by rwa [h.seq]
  have hlt : store.seq + 1 < 2 ^ 63 := by
    have := hint'.2
    omega
  refine ⟨?_, ?_, ?_, ?_⟩
  · rw [save_fst hlt, int32_of_isInt32 hint', h.seq]
    rfl
  · unfold save
    rw [if_pos hlt]
    simp only [Table.insert, newRow_eq, LibraryTable.save, h.rows, h.seq, List.map_append, List.map_cons,
      List.map_nil]
  · rw [save_seq hlt, h.seq]
    rfl
  · intro row hrow
    rcases List.mem_append.1 hrow with hrow | hrow
    · exact h.readable row hrow
    · obtain rfl := List.mem_singleton.1 hrow
      exact readable_ofEntry hint hdelay

theorem represents_update {store : Store} {table : LibraryTable} (h : Represents store table)
    {entry : MusicLibraryEntry} (hid : IsInt32 entry.id) (hdelay : IsInt32 entry.delayMs) :
    Represents (update store entry) (table.update entry) where
  rows := by
    have hps : params (bound entry ++ [(14, .integer entry.id)]) 14 = .integer entry.id := rfl
    simp only [update, Table.update, LibraryTable.update, h.rows, List.map_map, hps]
    refine List.map_congr_left fun row _ => ?_
    simp only [Function.comp, columns, Value.integer.injEq]
    split_ifs with hrow
    · exact assign_update entry (congrArg Value.integer hrow)
    · rfl
  seq := h.seq
  readable := by
    intro row hrow
    rcases LibraryTable.mem_update hrow with ⟨hrow, -⟩ | rfl
    · exact h.readable row hrow
    · exact readable_ofEntry hid hdelay

theorem represents_delete {store : Store} {table : LibraryTable} (h : Represents store table) (id : ℤ) :
    Represents (delete store id) (table.delete id) where
  rows := by
    simp only [delete, Table.delete, LibraryTable.delete, h.rows, List.filter_map]
    congr 1
    refine List.filter_congr fun row _ => decide_eq_decide.2 ?_
    simp [columns]
  seq := h.seq
  readable row hrow := h.readable row (LibraryTable.mem_delete.1 hrow).1

theorem represents_markUsed {store : Store} {table : LibraryTable} (h : Represents store table) (id : ℤ)
    (now : Time) : Represents (markUsed store id now) (table.markUsed id now) where
  rows := by
    have hps : params [(1, .integer now.seconds), (2, .integer id)] 2 = .integer id := rfl
    simp only [markUsed, Table.update, LibraryTable.markUsed, h.rows, List.map_map, hps]
    refine List.map_congr_left fun row _ => ?_
    simp only [Function.comp, columns, Value.integer.injEq]
    split_ifs
    · funext c
      cases c <;> rfl
    · rfl
  seq := h.seq
  readable := by
    intro row hrow
    rcases LibraryTable.mem_markUsed hrow with ⟨hrow, -⟩ | ⟨old, hold, -, rfl⟩
    · exact h.readable row hrow
    · exact { h.readable old hold with }

theorem findById_represents {store : Store} {table : LibraryTable} (h : Represents store table) (id : ℤ) :
    findById store id = table.findById id := by
  have hfind : store.table.select (.integer id) = (table.rows.find? (·.id = id)).map columns := by
    rw [Table.select, h.rows, List.find?_map]
    congr 2
    funext row
    simp [columns]
  rw [findById, hfind, LibraryTable.findById, Option.map_map]
  refine Option.map_congr fun row hrow => ?_
  exact readRow_columns (h.readable row (List.mem_of_find?_eq_some hrow))

/-! ### What the queries answer -/

section
variable {store : Store} {table : LibraryTable}

/-- Rows of the table are read as its records. -/
theorem read_columns (h : Represents store table) {rows : List LibraryRow} (hrows : ∀ row ∈ rows, row ∈ table.rows) :
    (rows.map columns).map (fun row => readRow (project selectColumns row)) = rows.map (·.readRow) := by
  rw [List.map_map]
  exact List.map_congr_left fun row hrow => readRow_columns (h.readable row (hrows row hrow))

/-- The row that is answered first. -/
theorem read_first (h : Represents store table) {rows : List LibraryRow} (hrows : ∀ row ∈ rows, row ∈ table.rows)
    (tie : ℕ) :
    (rows.map columns)[tie % (rows.map columns).length]?.map (fun row => readRow (project selectColumns row)) =
      rows[tie % rows.length]?.map (·.readRow) := by
  rw [← List.getElem?_map, read_columns h hrows, List.getElem?_map, List.length_map]

theorem findBySystemFilename_represents (h : Represents store table) (tie : ℕ) (filename : Str) :
    findBySystemFilename store tie filename = table.findBySystemFilename tie filename := by
  have hrows : store.table.selectWhere (· .system_filename = .ofStr filename) =
      (table.rows.filter (·.systemFilename = cStr filename)).map columns :=
    Table.selectWhere_map h.rows fun row => by simp [columns, Value.ofStr]
  unfold findBySystemFilename LibraryTable.findBySystemFilename
  rw [hrows]
  exact read_first h (fun row hrow => (List.mem_filter.1 hrow).1) tie

/-- A number of rows that is an `int` is counted. -/
theorem countByFilePath_represents (h : Represents store table) {filePath : Str}
    (hint : IsInt32 (table.countByFilePath filePath)) :
    countByFilePath store filePath = table.countByFilePath filePath := by
  have hrows : store.table.selectWhere (· .file_path = .ofStr filePath) =
      (table.rows.filter (·.filePath = cStr filePath)).map columns :=
    Table.selectWhere_map h.rows fun row => by simp [columns, Value.ofStr]
  have hlength : (store.table.selectWhere (· .file_path = .ofStr filePath)).length =
      table.countByFilePath filePath := by
    rw [hrows, List.length_map, ← List.countP_eq_length_filter, LibraryTable.countByFilePath]
  rw [countByFilePath, hlength, int32_of_isInt32 hint]

theorem findExpired_represents (h : Represents store table) (maxAgeSeconds : ℤ) (now : Time) :
    findExpired store maxAgeSeconds now = table.findExpired maxAgeSeconds now := by
  unfold findExpired LibraryTable.findExpired
  split_ifs
  · rfl
  have hflag : ∀ b : Bool, (if b then (1 : ℤ) else 0) = 0 ↔ b = false := by decide
  rw [Table.selectWhere_map h.rows (q := fun row => row.lastUsedAt < now.seconds - maxAgeSeconds ∧ row.inUse = false)
    fun row => by simp only [columns, Value.toInt_integer, hflag]]
  exact read_columns h fun row hrow => (List.mem_filter.1 hrow).1

theorem findBySongArtistPlatformDelay_represents (h : Represents store table) (tie : ℕ)
    (songName artist platform : Str) (delayMs : ℤ) :
    findBySongArtistPlatformDelay store tie songName artist platform delayMs =
      table.findBySongArtistPlatformDelay tie songName artist platform delayMs := by
  have hrows : (store.table.selectWhere fun row => row .song_name = .ofStr songName ∧
      row .artist = .ofStr artist ∧ row .platform = .ofStr platform ∧ row .delay_ms = .integer delayMs) =
        (table.rows.filter fun row => row.songName = cStr songName ∧ row.artist = cStr artist ∧
          row.platform = cStr platform ∧ row.delayMs = delayMs).map columns :=
    Table.selectWhere_map h.rows fun row => by simp [columns, Value.ofStr]
  have hlatest : ∀ rows : List LibraryRow,
      ((rows.map columns).filter fun row => ∀ other ∈ rows.map columns,
        (other .downloaded_at).toInt ≤ (row .downloaded_at).toInt) =
          (rows.filter fun row => ∀ other ∈ rows, other.downloadedAt ≤ row.downloadedAt).map columns := by
    intro rows
    rw [List.filter_map]
    congr 1
    refine List.filter_congr fun row _ => decide_eq_decide.2 ?_
    simp only [List.forall_mem_map, columns, Value.toInt_integer]
  unfold findBySongArtistPlatformDelay LibraryTable.findBySongArtistPlatformDelay LibraryTable.latest
  dsimp only
  rw [hrows, hlatest]
  exact read_first h (fun row hrow => (List.mem_filter.1 (List.mem_filter.1 hrow).1).1) tie

theorem findAll_represents (h : Represents store table) (rank : Row Column → ℕ) :
    findAll store rank = table.findAll (rank ∘ columns) := by
  have hsort : ((table.rows.map columns).mergeSort fun a b =>
      decide ((b .downloaded_at).toInt < (a .downloaded_at).toInt ∨
        (a .downloaded_at).toInt = (b .downloaded_at).toInt ∧ rank a ≤ rank b)) =
          (table.rows.mergeSort fun a b => decide (b.downloadedAt < a.downloadedAt ∨
            a.downloadedAt = b.downloadedAt ∧ rank (columns a) ≤ rank (columns b))).map columns := by
    refine (List.map_mergeSort ?_).symm
    intro a _ b _
    rfl
  unfold findAll LibraryTable.findAll
  rw [h.rows, hsort]
  exact read_columns h fun row hrow => List.mem_mergeSort.1 hrow

end

/-! ### Removal -/

/-- The store holds the rows of the library, and the disk is the same. -/
def Holds (s : Store × Finset Str) (shelf : Shelf) : Prop := Represents s.1 shelf.table ∧ s.2 = shelf.disk

variable {s : Store × Finset Str} {shelf : Shelf}

/-- The statements of a removal do what `remove` does, while the rows can be counted in an `int`. -/
theorem remove_holds (h : Holds s shelf) (hfew : shelf.table.rows.length < 2 ^ 31) (denied : Finset Str) (id : ℤ) :
    Holds (remove denied s id) (shelf.remove denied id) := by
  obtain ⟨h, hdisk⟩ := h
  unfold remove Shelf.remove
  rw [findById_represents h]
  cases shelf.table.findById id with
  | none => exact ⟨h, hdisk⟩
  | some entry =>
    have hcount : shelf.table.countByFilePath entry.filePath ≤ shelf.table.rows.length := List.countP_le_length
    have hint : IsInt32 (shelf.table.countByFilePath entry.filePath) := ⟨by omega, by omega⟩
    refine ⟨represents_delete h id, ?_⟩
    dsimp only
    rw [countByFilePath_represents h hint, hdisk]
    simp only [Nat.cast_le_one]

/-- So does a sweep, which removes one row after the other. -/
theorem removeExpired_holds (h : Holds s shelf) (hfew : shelf.table.rows.length < 2 ^ 31) (denied : Finset Str)
    (maxAgeSeconds : ℤ) (now : Time) :
    Holds (removeExpired denied s maxAgeSeconds now) (shelf.removeExpired denied maxAgeSeconds now) := by
  unfold removeExpired Shelf.removeExpired Shelf.deleteFiles
  rw [findExpired_represents h.1]
  generalize (shelf.table.findExpired maxAgeSeconds now).map (·.id) = ids
  induction ids generalizing s shelf with
  | nil => exact h
  | cons id ids ih =>
    exact ih (remove_holds h hfew denied id) (lt_of_le_of_lt (shelf.remove_counts denied id).2 hfew)

/-! ### Runs -/

/-- A call that changes the table, or a file that a download writes. -/
inductive Call where
  | save (entry : MusicLibraryEntry)
  | update (entry : MusicLibraryEntry)
  | markUsed (id : ℤ) (now : Time)
  | remove (denied : Finset Str) (id : ℤ)
  | removeExpired (denied : Finset Str) (maxAgeSeconds : ℤ) (now : Time)
  | write (filePath : Str)

def Call.isSave : Call → Bool
  | .save _ => true
  | _ => false

/-- The ids and delays that are bound are `int`s. -/
def Call.Ints : Call → Prop
  | .save entry => IsInt32 entry.delayMs
  | .update entry => IsInt32 entry.id ∧ IsInt32 entry.delayMs
  | _ => True

/-- A call on the columns. -/
def perform (s : Store × Finset Str) : Call → Store × Finset Str
  | .save entry => ((save s.1 entry).2, s.2)
  | .update entry => (update s.1 entry, s.2)
  | .markUsed id now => (markUsed s.1 id now, s.2)
  | .remove denied id => remove denied s id
  | .removeExpired denied maxAgeSeconds now => removeExpired denied s maxAgeSeconds now
  | .write filePath => (s.1, insert filePath s.2)

/-- A call on the library. -/
def performShelf (shelf : Shelf) : Call → Shelf
  | .save entry => { shelf with table := (shelf.table.save entry).2 }
  | .update entry => { shelf with table := shelf.table.update entry }
  | .markUsed id now => { shelf with table := shelf.table.markUsed id now }
  | .remove denied id => shelf.remove denied id
  | .removeExpired denied maxAgeSeconds now => shelf.removeExpired denied maxAgeSeconds now
  | .write filePath => { shelf with disk := insert filePath shelf.disk }

/-- Only `save` gives out an id and adds a row. -/
theorem performShelf_counts (shelf : Shelf) (c : Call) :
    (performShelf shelf c).table.seq = shelf.table.seq + (if c.isSave then 1 else 0) ∧
      (performShelf shelf c).table.rows.length ≤ shelf.table.rows.length + (if c.isSave then 1 else 0) := by
  cases c with
  | save entry => exact ⟨rfl, by simp [performShelf, LibraryTable.save, Call.isSave]⟩
  | update entry => exact ⟨(add_zero _).symm, by simp [performShelf, LibraryTable.update]⟩
  | markUsed id now => exact ⟨(add_zero _).symm, by simp [performShelf, LibraryTable.markUsed]⟩
  | remove denied id =>
    obtain ⟨hseq, hlen⟩ := shelf.remove_counts denied id
    exact ⟨hseq.trans (add_zero _).symm, hlen⟩
  | removeExpired denied maxAgeSeconds now =>
    obtain ⟨hseq, hlen⟩ := shelf.deleteFiles_counts denied ((shelf.table.findExpired maxAgeSeconds now).map (·.id))
    exact ⟨hseq.trans (add_zero _).symm, hlen⟩
  | write filePath => exact ⟨(add_zero _).symm, le_rfl⟩

theorem perform_holds (h : Holds s shelf) (hlen : shelf.table.rows.length ≤ shelf.table.seq) {c : Call}
    (hc : c.Ints) (hseq : shelf.table.seq + (if c.isSave then 1 else 0) < 2 ^ 31) :
    Holds (perform s c) (performShelf shelf c) := by
  have hfew : shelf.table.rows.length < 2 ^ 31 := by
    split_ifs at hseq <;> omega
  obtain ⟨hrep, hdisk⟩ := h
  cases c with
  | save entry => exact ⟨(represents_save hrep ⟨by omega, hseq⟩ hc).2, hdisk⟩
  | update entry => exact ⟨represents_update hrep hc.1 hc.2, hdisk⟩
  | markUsed id now => exact ⟨represents_markUsed hrep id now, hdisk⟩
  | remove denied id => exact remove_holds ⟨hrep, hdisk⟩ hfew denied id
  | removeExpired denied maxAgeSeconds now => exact removeExpired_holds ⟨hrep, hdisk⟩ hfew denied maxAgeSeconds now
  | write filePath => exact ⟨hrep, congrArg (insert filePath) hdisk⟩

theorem exec_holds (h : Holds s shelf) (hlen : shelf.table.rows.length ≤ shelf.table.seq) {run : List Call}
    (hints : ∀ c ∈ run, c.Ints) (hsaves : shelf.table.seq + run.countP Call.isSave < 2 ^ 31) :
    Holds (Run.exec perform s run) (Run.exec performShelf shelf run) := by
  induction run generalizing s shelf with
  | nil => exact h
  | cons c run ih =>
    obtain ⟨hc, hrun⟩ := List.forall_mem_cons.1 hints
    obtain ⟨hseq', hlen'⟩ := performShelf_counts shelf c
    rw [List.countP_cons] at hsaves
    push_cast at hsaves
    refine ih (perform_holds h hlen hc ?_) ?_ hrun ?_
    · omega
    · split_ifs at hseq' hlen' <;> omega
    · omega

/-- **Runs of the repository.**  From the empty table on, and with fewer than 2³¹ rows saved, the
    columns and the disk are after every run what the operations on the library make of them. -/
theorem run_holds (disk : Finset Str) {run : List Call} (hints : ∀ c ∈ run, c.Ints)
    (hsaves : run.countP Call.isSave < 2 ^ 31) :
    Holds (Run.exec perform (.empty, disk) run) (Run.exec performShelf ⟨.empty, disk⟩ run) :=
  exec_holds ⟨represents_empty, rfl⟩ le_rfl hints (by simpa [LibraryTable.empty] using hsaves)

end NarMusic.LibraryStore
