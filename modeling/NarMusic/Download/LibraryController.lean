/-
  The library over HTTP (`application/library_service.cpp`,
  `presentation/controllers/library_controller.cpp`).

  * What the list says, a client reads back, song by song, the last download first; one text
    that is not UTF-8 takes the whole list away (`list_read`).
  * A deletion leaves the rows it does not name, and no other request of the library does more to the
    rows than mark them as used (`Marks`).
-/
import NarMusic.Download.Deletion
import NarMusic.Http.Router
import NarMusic.Http.UrlDecode
import NarMusic.Lib.JsonValue
import NarMusic.Web.Answers
import NarMusic.Zip.BatchDownload
import NarMusic.Zip.EntryNames

namespace NarMusic

open Cxx

/-! ## The service -/

/-- The name that is shown. -/
def MusicLibraryEntry.customFilename (e : MusicLibraryEntry) : Str :=
  if e.songName = [] then e.systemFilename else e.songName

def MusicLibraryEntry.toJson (e : MusicLibraryEntry) : Json :=
  .object [(lit "id", .int e.id), (lit "custom_filename", .str e.customFilename),
    (lit "original_filename", .str e.originalFilename), (lit "system_filename", .str e.systemFilename),
    (lit "artist", .str e.artist), (lit "album", .str e.album), (lit "platform", .str e.platform),
    (lit "file_size", .int e.fileSize), (lit "delay_ms", .int e.delayMs),
    (lit "download_time", .int e.downloadedAt.seconds), (lit "last_used_time", .int e.lastUsedAt.seconds)]

namespace LibraryService

def listFiles (rank : LibraryRow → ℕ) (table : LibraryTable) : Json :=
  .arr ((table.findAll rank).map MusicLibraryEntry.toJson)

def getLyrics (tie : ℕ) (table : LibraryTable) (filename : Str) : Str :=
  ((table.findBySystemFilename tie filename).map (·.lyrics)).getD []

/-- `narmeta` is the tag in a file that TagLib can read, and empty where there is none. -/
def generatePlaylist (narmeta : Str → Str) (table : LibraryTable) (ids : List ℤ) : Str :=
  ids.flatMap fun id =>
    match table.findById id with
    | none => []
    | some entry =>
      if entry.filePath = [] ∨ narmeta entry.filePath = [] then [] else narmeta entry.filePath ++ [10]

end LibraryService

/-! ## The controller -/

namespace LibraryController

/-- What the code outside answers while a request is handled. -/
structure Surroundings where
  /-- What is left of `hex` between two escapes of a query. -/
  hex : ℕ → ℤ
  parse : Str → Except Exn JsonValue
  what : Exn → Str
  rank : LibraryRow → ℕ
  tie : ℕ
  denied : Finset Str
  /-- The clock that `markUsed` reads, call by call. -/
  clock : ℕ → Time
  narmeta : Str → Str
  /-- `stat`, where the file exists. -/
  stat : Str → Option ℤ
  /-- The local time, and `ZipWriter::createToFile`. -/
  time : Zip.Tm
  createToFile : List Zip.ZipEntry → Str → Bool

variable (env : Surroundings)

def list : Handler Shelf := fun _ shelf =>
  (Response.json 200 (lit "OK") (LibraryService.listFiles env.rank shelf.table), shelf)

/-- `deleteFile` returns `true`, also for an id that no row has. -/
def remove : Handler Shelf := fun req shelf =>
  let idStr := req.queryParam env.hex (lit "id")
  if idStr = [] then (Response.error 400 (lit "Bad Request") (lit "missing_id") (lit "id参数缺失"), shelf)
  else match stoi idStr with
    | none => (Response.error 400 (lit "Bad Request") (lit "invalid_id") (lit "id参数无效"), shelf)
    | some id =>
      (Response.json 200 (lit "OK") (.object [(lit "message", .str (lit "deleted")), (lit "id", .int id)]),
        shelf.remove env.denied id)

/-- The code and the message of a refusal, or the ids. -/
def readIds (body : JsonValue) : Except Exn ((Str × Str) ⊕ List ℤ) :=
  match body.array "ids" with
  | some items => do
    let ids ← items.mapM JsonValue.getInt
    return if ids = [] then .inl (lit "empty_ids", lit "ids不能为空") else .inr ids
  | none => .ok (.inl (lit "missing_ids", lit "ids参数缺失或格式错误"))

/-- The frame of the three handlers that take a list of ids. -/
def withIds (handler : List ℤ → Stateful Shelf Response) : Handler Shelf := fun req =>
  attempt (fun shelf =>
    match env.parse req.body >>= readIds with
    | .error e => (.error e, shelf)
    | .ok (.inl (code, msg)) => (Response.error 400 (lit "Bad Request") code msg, shelf)
    | .ok (.inr ids) => handler ids shelf)
    fun e shelf => (Response.error 400 (lit "Bad Request") (lit "parse_error") (env.what e), shelf)

def batchRemove : Handler Shelf := withIds env fun ids shelf =>
  (Response.json 200 (lit "OK") (.object [(lit "message", .str (lit "deleted")), (lit "count", .int ids.length)]),
    shelf.deleteFiles env.denied ids)

def generatePlaylist : Handler Shelf := withIds env fun ids shelf =>
  let playlist := LibraryService.generatePlaylist env.narmeta shelf.table ids
  if playlist = [] then
    (Response.error 404 (lit "Not Found") (lit "no_narmeta") (lit "选中文件均不包含narmeta信息"), shelf)
  else
    (Response.json 200 (lit "OK") (.object [(lit "playlist", .str playlist), (lit "count", .int (playlist.count 10))]),
      shelf)

/-- The whole file, from `stat`. -/
def wholeFile (filePath : Str) (size : ℤ) (cleanupPath : Str) : FileStreamInfo where
  filePath
  fileSize := size
  rangeStart := 0
  rangeEnd := size - 1
  cleanupPath

def batchDownload : Handler Shelf := withIds env fun ids shelf =>
  let (filesPaths, table) := BatchDownload.getFilesPaths (ids.zip ((List.range ids.length).map env.clock)) shelf.table
  let shelf := { shelf with table }
  match filesPaths with
  | [] => (Response.error 404 (lit "Not Found") (lit "files_not_found") (lit "文件均不存在"), shelf)
  | (name, path) :: _ =>
    if ids.length = 1 then
      match env.stat path with
      | none => (Response.error 404 (lit "Not Found") (lit "file_not_found") (lit "文件不存在"), shelf)
      | some size => (.ok (Response.downloadFile (wholeFile path size []) name), shelf)
    else
      let zipPath := BatchDownload.zipPath env.time
      -- one round more than there are names is enough for the loop over the numbers
      let entries := (BatchDownload.zipEntries (filesPaths.length + 1) filesPaths ∅).getD []
      if env.createToFile entries zipPath = false then
        (Response.error 500 (lit "Internal Error") (lit "zip_failed") (lit "ZIP打包失败"), shelf)
      else match env.stat zipPath with
        | none =>
          (Response.error 500 (lit "Internal Error") (lit "zip_stat_failed") (lit "ZIP文件状态获取失败"), shelf)
        | some size =>
          (.ok (Response.downloadFile (wholeFile zipPath size zipPath)
            (BatchDownload.dateStr env.time ++ lit ".zip")), shelf)

def lyrics : Handler Shelf := fun req shelf =>
  let filename := req.queryParam env.hex (lit "filename")
  if filename = [] then
    (Response.error 400 (lit "Bad Request") (lit "missing_filename") (lit "filename参数缺失"), shelf)
  else
    let lyricsText := LibraryService.getLyrics env.tie shelf.table filename
    if lyricsText = [] then (Response.error 404 (lit "Not Found") (lit "no_lyrics") (lit "歌词不存在"), shelf)
    else (Response.json 200 (lit "OK") (.object [(lit "lyrics", .str lyricsText)]), shelf)

/-! ## What the handlers do to the library -/

/-- The row without the mark of its use. -/
def unmarked (row : LibraryRow) : LibraryRow := { row with inUse := false, lastUsedAt := 0 }

/-- Rows have been marked as used, and nothing else. -/
structure Marks (before after : Shelf) : Prop where
  disk : after.disk = before.disk
  seq : after.table.seq = before.table.seq
  rows : after.table.rows.map unmarked = before.table.rows.map unmarked

theorem Marks.refl (shelf : Shelf) : Marks shelf shelf := ⟨rfl, rfl, rfl⟩

theorem Marks.trans {a b c : Shelf} (h : Marks a b) (h' : Marks b c) : Marks a c :=
  ⟨h'.disk.trans h.disk, h'.seq.trans h.seq, h'.rows.trans h.rows⟩

theorem marks_markUsed (disk : Finset Str) (table : LibraryTable) (id : ℤ) (now : Time) :
    Marks ⟨table, disk⟩ ⟨table.markUsed id now, disk⟩ := by
  refine ⟨rfl, rfl, ?_⟩
  show (table.rows.map _).map unmarked = _
  rw [List.map_map]
  refine List.map_congr_left fun row _ => ?_
  rw [Function.comp]
  split_ifs <;> rfl

/-- No row has come or gone. -/
theorem Marks.ids {before after : Shelf} (h : Marks before after) :
    after.table.rows.map (·.id) = before.table.rows.map (·.id) := by
  have hids := congrArg (List.map (·.id)) h.rows
  rwa [List.map_map, List.map_map] at hids

theorem marks_getFilesPaths (disk : Finset Str) (ids : List (ℤ × Time)) (table : LibraryTable) :
    Marks ⟨table, disk⟩ ⟨(BatchDownload.getFilesPaths ids table).2, disk⟩ := by
  induction ids generalizing table with
  | nil => exact .refl _
  | cons id ids ih =>
    obtain ⟨id, now⟩ := id
    rw [BatchDownload.getFilesPaths]
    split
    · exact ih table
    · split_ifs
      · exact ih table
      · exact (marks_markUsed disk table id now).trans (ih _)

variable {env}

/-- What a handler with a list of ids does is what it does with the ids of the body, if it is called. -/
theorem withIds_shelf (env : Surroundings) (handler : List ℤ → Stateful Shelf Response) (req : Request) (shelf : Shelf) :
    (withIds env handler req shelf).2 = shelf ∨ ∃ ids, (env.parse req.body >>= readIds) = .ok (.inr ids) ∧
      (withIds env handler req shelf).2 = (handler ids shelf).2 := by
  unfold withIds attempt
  dsimp only
  cases hids : env.parse req.body >>= readIds with
  | error e => exact Or.inl rfl
  | ok refusal =>
    cases refusal with
    | inl refusal =>
      left
      dsimp only
      split
      · next heq => exact (congrArg Prod.snd heq).symm
      · next heq => exact (congrArg Prod.snd heq).symm
    | inr ids =>
      refine Or.inr ⟨ids, rfl, ?_⟩
      dsimp only
      split
      · next heq => rw [heq]
      · next heq => rw [heq]

theorem generatePlaylist_same (req : Request) (shelf : Shelf) : (generatePlaylist env req shelf).2 = shelf := by
  rcases withIds_shelf env (fun ids shelf =>
    let playlist := LibraryService.generatePlaylist env.narmeta shelf.table ids
    if playlist = [] then
      (Response.error 404 (lit "Not Found") (lit "no_narmeta") (lit "选中文件均不包含narmeta信息"), shelf)
    else
      (Response.json 200 (lit "OK")
        (.object [(lit "playlist", .str playlist), (lit "count", .int (playlist.count 10))]), shelf)) req shelf with
    h | ⟨ids, -, h⟩
  · exact h
  · refine h.trans ?_
    dsimp only
    split_ifs <;> rfl

theorem batchDownload_marks (req : Request) (shelf : Shelf) : Marks shelf (batchDownload env req shelf).2 := by
  have hids (ids : List ℤ) : Marks shelf { shelf with
      table := (BatchDownload.getFilesPaths (ids.zip ((List.range ids.length).map env.clock)) shelf.table).2 } :=
    marks_getFilesPaths shelf.disk _ shelf.table
  unfold batchDownload
  rcases withIds_shelf env _ req shelf with h | ⟨ids, -, h⟩
  · rw [h]
    exact .refl shelf
  · rw [h]
    refine (congrArg (Marks shelf) ?_).mp (hids ids)
    generalize BatchDownload.getFilesPaths _ _ = found
    obtain ⟨filesPaths, table⟩ := found
    dsimp only
    split
    · rfl
    · split_ifs
      · split <;> rfl
      · rfl
      · split <;> rfl

theorem lyrics_same (req : Request) (shelf : Shelf) : (lyrics env req shelf).2 = shelf := by
  unfold lyrics
  dsimp only
  split_ifs <;> rfl

/-! ## The list -/

theorem mem_findAll (rank : LibraryRow → ℕ) (table : LibraryTable) :
    ∃ rows : List LibraryRow, table.findAll rank = rows.map (·.readRow) ∧ rows.Perm table.rows ∧
      rows.Pairwise fun a b => b.downloadedAt ≤ a.downloadedAt := by
  refine ⟨_, rfl, List.mergeSort_perm _ _, ?_⟩
  refine (List.pairwise_mergeSort ?_ ?_ table.rows).imp fun {a b} h => ?_
  · intro a b c hab hbc
    simp only [decide_eq_true_eq] at hab hbc ⊢
    omega
  · intro a b
    simp only [Bool.or_eq_true, decide_eq_true_eq]
    omega
  · simp only [decide_eq_true_eq] at h
    omega

theorem toJson_eq (e : MusicLibraryEntry) :
    e.toJson = .obj [(lit "album", .str e.album), (lit "artist", .str e.artist),
      (lit "custom_filename", .str e.customFilename), (lit "delay_ms", .int e.delayMs),
      (lit "download_time", .int e.downloadedAt.seconds), (lit "file_size", .int e.fileSize), (lit "id", .int e.id),
      (lit "last_used_time", .int e.lastUsedAt.seconds), (lit "original_filename", .str e.originalFilename),
      (lit "platform", .str e.platform), (lit "system_filename", .str e.systemFilename)] := rfl

/-- The texts of a row that are shown. -/
def shownTexts (row : LibraryRow) : List Str :=
  [row.album, row.artist, row.readRow.customFilename, row.originalFilename.getD [], row.platform, row.systemFilename]

open Web in
/-- What is shown of a row, by the names that the client asks for. -/
def shown (row : LibraryRow) : List (String × Value) :=
  [("id", .num row.id 0), ("custom_filename", .str (textOf row.readRow.customFilename)),
    ("original_filename", .str (textOf (row.originalFilename.getD []))),
    ("system_filename", .str (textOf row.systemFilename)), ("artist", .str (textOf row.artist)),
    ("album", .str (textOf row.album)), ("platform", .str (textOf row.platform)),
    ("file_size", .num row.fileSize 0), ("delay_ms", .num row.delayMs 0),
    ("download_time", .num row.downloadedAt 0), ("last_used_time", .num row.lastUsedAt 0)]

/-- The client finds in the value what is shown of the row. -/
def Shows (row : LibraryRow) (v : Web.Value) : Prop := ∀ p ∈ shown row, v.get p.1.toList = some p.2

theorem seconds_fromTimeT (n : ℤ) : (LibraryRow.fromTimeT n).seconds = n := by
  simp [LibraryRow.fromTimeT, Time.seconds]

theorem shows_read (row : LibraryRow) : Shows row (Web.read row.readRow.toJson) := by
  have hnames : (["album", "artist", "custom_filename", "delay_ms", "download_time", "file_size", "id",
      "last_used_time", "original_filename", "platform", "system_filename"].map fun s => Web.textOf (lit s)) =
      ["album".toList, "artist".toList, "custom_filename".toList, "delay_ms".toList, "download_time".toList,
        "file_size".toList, "id".toList, "last_used_time".toList, "original_filename".toList, "platform".toList,
        "system_filename".toList] := by
    exact List.map_congr_left fun s _ => Web.textOf_encode s.toList
  simp only [List.map_cons, List.map_nil, List.cons.injEq, and_true] at hnames
  rw [toJson_eq]
  simp only [Web.read, Web.readMembers, hnames]
  simp only [Shows, shown, List.forall_mem_cons]
  refine ⟨rfl, rfl, rfl, rfl, rfl, rfl, rfl, rfl, rfl, ?_, ?_, by simp⟩
  · exact congrArg (fun n => some (Web.Value.num n 0)) (seconds_fromTimeT _)
  · exact congrArg (fun n => some (Web.Value.num n 0)) (seconds_fromTimeT _)

theorem dumps_toJson (row : LibraryRow) :
    row.readRow.toJson.Dumps ↔ ∀ s ∈ shownTexts row, Json.utf8Valid s = true := by
  have hnames : ∀ s ∈ ["album", "artist", "custom_filename", "delay_ms", "download_time", "file_size", "id",
      "last_used_time", "original_filename", "platform", "system_filename"], Json.utf8Valid (lit s) = true := by
    exact fun s _ => Web.utf8Valid_encode s.toList
  simp only [List.forall_mem_cons] at hnames
  rw [toJson_eq, Json.dumps_obj]
  simp only [List.forall_mem_cons, hnames, true_and, Json.dumps_str, Json.dumps_int, shownTexts, LibraryRow.readRow]
  simp

/-- **The list.**  It is written exactly when the texts that it shows are UTF-8; then the client
    reads every row of the table, once and with what is shown of it, the last download first. -/
theorem list_read (env : Surroundings) (req : Request) (shelf : Shelf) :
    (list env req shelf).2 = shelf ∧
      ((∃ r, (list env req shelf).1 = .ok r) ↔
        ∀ row ∈ shelf.table.rows, ∀ s ∈ shownTexts row, Json.utf8Valid s = true) ∧
      ∀ r, (list env req shelf).1 = .ok r → r.status = 200 ∧ ∃ t vs rows,
        Utf8.decode r.body = some t ∧ Web.Value.parse t = some (.arr vs) ∧
        rows.Perm shelf.table.rows ∧ rows.Pairwise (fun a b => b.downloadedAt ≤ a.downloadedAt) ∧
        List.Forall₂ Shows rows vs := by
  obtain ⟨rows, hrows, hperm, hsorted⟩ := mem_findAll env.rank shelf.table
  have hlist : (LibraryService.listFiles env.rank shelf.table).Dumps ↔
      ∀ row ∈ shelf.table.rows, ∀ s ∈ shownTexts row, Json.utf8Valid s = true := by
    rw [LibraryService.listFiles, Json.dumps_arr, hrows]
    simp only [List.map_map, List.forall_mem_map, Function.comp, dumps_toJson, hperm.mem_iff]
  refine ⟨rfl, ?_, fun r hr => ?_⟩
  · rw [← hlist]
    exact Json.map_ok_iff
  · have hmap : (LibraryService.listFiles env.rank shelf.table).dump.map _ = .ok r := hr
    cases hdump : (LibraryService.listFiles env.rank shelf.table).dump with
    | error e =>
      rw [hdump] at hmap
      cases hmap
    | ok text =>
      rw [hdump] at hmap
      obtain rfl := Except.ok.inj hmap
      obtain ⟨t, ht, hparse⟩ := Web.parse_dump hdump
      refine ⟨rfl, t, rows.map fun row => Web.read row.readRow.toJson, rows, ht, ?_, hperm, hsorted, ?_⟩
      · have hitems : ∀ js : List Json, Web.readItems js = js.map Web.read := by
          intro js
          induction js with
          | nil => rfl
          | cons j js ih => rw [Web.readItems, ih, List.map_cons]
        rw [hparse, LibraryService.listFiles, Web.read, hitems, hrows, List.map_map, List.map_map]
        rfl
      · rw [List.forall₂_map_right_iff, List.forall₂_same]
        exact fun row _ => shows_read row

end LibraryController

end NarMusic
