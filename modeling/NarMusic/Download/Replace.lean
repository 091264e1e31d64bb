/-
  Downloads that replace an entry of the library, and the files of the others.

  Here the operations run one after the other, and `executeDownload` is one step:
  it downloads, looks for an entry of the same song, artist, platform and delay, and
  updates that entry or adds one.  `remove` counts the rows with the path before it
  removes a file; the replacement does not, so it takes the file from another row
  with the same path (`shared_lost`), and no other way (`keeps_iff_unshared`).
-/
import NarMusic.Download.Queue
import NarMusic.Download.Library

namespace NarMusic.Download

open Cxx

/-- What the downloader does. -/
inductive Downloaded where
  | done
  /-- It returns the empty string, after it has opened the file or before. -/
  | failed (opened : Bool)
  | threw (opened : Bool)

/-- What `executeDownload` reads from `fetched`, once the timing is adjusted and the translation
    merged. -/
structure Fetched where
  songName : Str
  artist : Str
  album : Str
  lyrics : Str
  hasLyrics : Bool

/-- The clocks and the collaborators of a call of `executeDownload`. -/
structure Execution where
  now : Time
  steady : ℤ
  /-- The calls of the progress callback, with the steady clock. -/
  progress : List (ℤ × ℤ)
  downloaded : Downloaded
  /-- `none` where fetching the lyrics throws. -/
  fetched : Option Fetched
  fileSize : ℤ
  downloadedAt : Time
  tie : ℕ
  denied : Finset Str

/-- The state of the service between two operations. -/
structure Catalog where
  tasks : TaskTable := .empty
  /-- The downloads that have been queued and not yet executed. -/
  queued : List (Str × CreateTaskRequest) := []
  taskCounter : ℤ := 0
  shelf : Shelf

inductive Operation where
  | createTask (now created : Time) (req : CreateTaskRequest)
  | executeDownload (i : ℕ) (x : Execution)
  | deleteFiles (denied : Finset Str) (ids : List ℤ)
  | removeExpired (denied : Finset Str) (now : Time)

/-! ## Operations -/

/-- `fs::path(filePath).filename()`. -/
def pathFilename (filePath : Str) : Str := (filePath.reverse.takeWhile (· ≠ 47)).reverse

/-- The entry that `executeDownload` makes for a file it has downloaded. -/
def newEntry (req : CreateTaskRequest) (filePath : Str) (x : Execution) : MusicLibraryEntry where
  songName :=
    match x.fetched with
    | some fetched => if fetched.songName ≠ [] then fetched.songName else req.filename
    | none => req.filename
  artist := (x.fetched.map (·.artist)).getD []
  album := (x.fetched.map (·.album)).getD []
  filePath
  systemFilename := pathFilename filePath
  originalFilename := req.filename
  fileSize := x.fileSize
  delayMs := req.delayMs
  platform := req.platform
  lyrics :=
    match x.fetched with
    | some fetched => if fetched.hasLyrics then fetched.lyrics else []
    | none => []
  inUse := false
  downloadedAt := x.downloadedAt
  lastUsedAt := x.downloadedAt

/-- The entry that is there already. -/
def existing (table : LibraryTable) (entry : MusicLibraryEntry) (tie : ℕ) : Option MusicLibraryEntry :=
  if entry.songName ≠ [] ∧ entry.artist ≠ [] then
    table.findBySongArtistPlatformDelay tie entry.songName entry.artist entry.platform entry.delayMs
  else none

/-- The entry takes the place of an existing one, whose file goes unless it is none or the same. -/
def replaceEntry (x : Execution) (shelf : Shelf) (old entry : MusicLibraryEntry) : Shelf :=
  let table := shelf.table.update { entry with id := old.id }
  { table := if old.id = 0 then (table.save entry).2 else table
    disk :=
      if old.filePath ≠ [] ∧ old.filePath ≠ entry.filePath then
        removeFile x.denied shelf.disk old.filePath
      else shelf.disk }

/-- The existing entry is updated, or the entry is saved as a new one. -/
def register (x : Execution) (shelf : Shelf) (entry : MusicLibraryEntry) : Shelf :=
  match existing shelf.table entry x.tie with
  | some old => replaceEntry x shelf old entry
  | none => { shelf with table := (shelf.table.save entry).2 }

/-- The task and the table after the calls of the progress callback. -/
def reportProgress (tasks : TaskTable) (task : Task) (x : Execution) : Task × TaskTable :=
  let (task, _, tasks) := x.progress.foldl
    (fun (task, last, tasks) (bytes, steady) => progressCallback tasks task last bytes steady)
    (task, x.steady - 10 * 10 ^ 9, tasks)
  (task, tasks)

/-- The disk when the downloader has opened the file. -/
def openFile (disk : Finset Str) (filePath : Str) (opened : Bool) : Finset Str :=
  if opened then insert filePath disk else disk

/-- `executeDownload` on the tasks and the shelf. -/
def execute (tasks : TaskTable) (shelf : Shelf) (taskId : Str) (req : CreateTaskRequest)
    (x : Execution) : TaskTable × Shelf :=
  match tasks.findById taskId x.now with
  | none => (tasks, shelf)
  | some task =>
    let task := { task with status := .Downloading }
    let (task, tasks) := reportProgress (tasks.save task) task x
    match x.downloaded with
    | .threw opened => (tasks, { shelf with disk := openFile shelf.disk task.filePath opened })
    | .failed opened =>
      ((tasks.save task).save { task with status := .Failed },
        { shelf with disk := openFile shelf.disk task.filePath opened })
    | .done =>
      let shelf := { shelf with disk := openFile shelf.disk task.filePath true }
      if task.filePath = [] then ((tasks.save task).save { task with status := .Failed }, shelf)
      else
        ((tasks.save task).save { task with status := .Finished },
          register x shelf (newEntry req task.filePath x))

def Catalog.step (config : DownloadConfig) (s : Catalog) : Operation → Catalog
  | .createTask now created req =>
    let task := newTask config now created s.taskCounter req
    { s with
      tasks := s.tasks.save task
      queued := s.queued ++ [(task.id, req)]
      taskCounter := int32 (s.taskCounter + 1) }
  | .executeDownload i x =>
    match s.queued[i]? with
    | some (taskId, req) =>
      let (tasks, shelf) := execute s.tasks s.shelf taskId req x
      { s with tasks, shelf, queued := s.queued.eraseIdx i }
    | none => s
  | .deleteFiles denied ids => { s with shelf := s.shelf.deleteFiles denied ids }
  | .removeExpired denied now => { s with shelf := s.shelf.removeExpired denied config.max_age now }

/-! ## Replacing an entry -/

theorem mem_replaceEntry {x : Execution} {shelf : Shelf} {old entry : MusicLibraryEntry} {row : LibraryRow}
    (h : row ∈ (replaceEntry x shelf old entry).table.rows) :
    (row ∈ shelf.table.rows ∧ row.id ≠ old.id) ∨ row.filePath = cStr entry.filePath := by
  have hupdate : row ∈ (shelf.table.update { entry with id := old.id }).rows →
      (row ∈ shelf.table.rows ∧ row.id ≠ old.id) ∨ row.filePath = cStr entry.filePath := by
    intro hrow
    rcases LibraryTable.mem_update hrow with hrow | rfl
    · exact Or.inl hrow
    · exact Or.inr rfl
  unfold replaceEntry at h
  dsimp only at h
  split_ifs at h
  · rcases List.mem_append.1 h with h | h
    · exact hupdate h
    · obtain rfl := List.mem_singleton.1 h
      exact Or.inr rfl
  · exact hupdate h

theorem mem_replaceEntry_of_ne (x : Execution) {shelf : Shelf} {old : MusicLibraryEntry}
    (entry : MusicLibraryEntry) {row : LibraryRow} (hrow : row ∈ shelf.table.rows)
    (hid : row.id ≠ old.id) : row ∈ (replaceEntry x shelf old entry).table.rows := by
  have hupdate : row ∈ (shelf.table.update { entry with id := old.id }).rows :=
    LibraryTable.mem_update_of_ne hrow hid
  unfold replaceEntry
  dsimp only
  split_ifs
  · exact List.mem_append_left _ hupdate
  · exact hupdate

/-- The file that a replacement takes from the disk. -/
theorem notMem_replaceEntry {x : Execution} {shelf : Shelf} {old entry : MusicLibraryEntry} {path : Str}
    (hpath : path ∈ shelf.disk) :
    path ∉ (replaceEntry x shelf old entry).disk ↔
      path = old.filePath ∧ old.filePath ≠ [] ∧ old.filePath ≠ entry.filePath ∧
        old.filePath ∉ x.denied := by
  unfold replaceEntry
  dsimp only
  split_ifs with h
  · rw [Shelf.mem_removeFile, not_and]
    constructor
    · intro hgone
      have hnot := hgone hpath
      rw [Classical.not_imp] at hnot
      exact ⟨hnot.1, h.1, h.2, hnot.2⟩
    · rintro ⟨rfl, -, -, hdenied⟩ - hall
      exact hdenied (hall rfl)
  · refine ⟨fun hgone => absurd hpath hgone, ?_⟩
    rintro ⟨-, hne, hdiff, -⟩
    exact absurd ⟨hne, hdiff⟩ h

/-- A replaced entry whose file goes shares its path with no other row. -/
def Unshared (shelf : Shelf) (entry : MusicLibraryEntry) (x : Execution) : Prop :=
  ∀ old, existing shelf.table entry x.tie = some old → old.filePath ≠ [] →
    old.filePath ≠ entry.filePath → old.filePath ∈ shelf.disk → old.filePath ∉ x.denied →
    ∀ row ∈ shelf.table.rows, row.id ≠ old.id → row.filePath ≠ old.filePath

theorem register_spares_iff {shelf : Shelf} {entry : MusicLibraryEntry} {x : Execution}
    (hplain : cStr entry.filePath = entry.filePath) :
    shelf.Spares (register x { shelf with disk := insert entry.filePath shelf.disk } entry) ↔
      Unshared shelf entry x := by
  unfold register Unshared
  dsimp only
  rcases existing shelf.table entry x.tie with _ | old
  · exact ⟨fun _ => nofun, fun _ path hpath hgone => absurd (Finset.mem_insert_of_mem hpath) hgone⟩
  · dsimp only
    constructor
    · rintro h old' hold hne hdiff hdisk hdenied row hrow hid
      obtain rfl := Option.some.inj hold
      refine h old.filePath hdisk ?_ row (mem_replaceEntry_of_ne x entry hrow hid)
      exact (notMem_replaceEntry (Finset.mem_insert_of_mem hdisk)).2 ⟨rfl, hne, hdiff, hdenied⟩
    · intro h path hpath hgone row hrow
      obtain ⟨rfl, hne, hdiff, hdenied⟩ :=
        (notMem_replaceEntry (Finset.mem_insert_of_mem hpath)).1 hgone
      rcases mem_replaceEntry hrow with ⟨hrow, hid⟩ | heq
      · exact h old rfl hne hdiff hpath hdenied row hrow hid
      · exact fun hsame => hdiff (hsame.symm.trans (heq.trans hplain))

/-! ## One operation -/

/-- **Induction over the progress callbacks**, each of which sets the bytes and may save the task. -/
theorem reportProgress_inv {P : Task → TaskTable → Prop}
    (hstep : ∀ task tasks bytes, P task tasks →
      P { task with downloadedBytes := bytes } tasks ∧
        P { task with downloadedBytes := bytes } (tasks.save { task with downloadedBytes := bytes }))
    (x : Execution) {task : Task} {tasks : TaskTable} (h : P task tasks) :
    P (reportProgress tasks task x).1 (reportProgress tasks task x).2 := by
  have hfold : ∀ (calls : List (ℤ × ℤ)) (task : Task) (last : ℤ) (tasks : TaskTable), P task tasks →
      P (calls.foldl (fun (task, last, tasks) (bytes, steady) =>
          progressCallback tasks task last bytes steady) (task, last, tasks)).1
        (calls.foldl (fun (task, last, tasks) (bytes, steady) =>
          progressCallback tasks task last bytes steady) (task, last, tasks)).2.2 := by
    intro calls
    induction calls with
    | nil => exact fun _ _ _ h => h
    | cons call calls ih =>
      intro task last tasks h
      obtain ⟨hset, hsaved⟩ := hstep task tasks call.1 h
      rw [List.foldl_cons]
      dsimp only [progressCallback]
      split_ifs
      · exact ih _ _ _ hsaved
      · exact ih _ _ _ hset
  exact hfold x.progress task _ tasks h

theorem reportProgress_filePath (tasks : TaskTable) (task : Task) (x : Execution) :
    (reportProgress tasks task x).1.filePath = task.filePath := by
  refine @reportProgress_inv (fun task' _ => task'.filePath = task.filePath) ?_ x task tasks rfl
  intro task' tasks' bytes h
  exact ⟨h, h⟩

/-- The files change where a download registers its entry; else they are only added to. -/
theorem execute_shelf (tasks : TaskTable) (shelf : Shelf) (taskId : Str) (req : CreateTaskRequest)
    (x : Execution) :
    (execute tasks shelf taskId req x).2 =
      match tasks.findById taskId x.now, x.downloaded with
      | none, _ => shelf
      | some task, .threw opened | some task, .failed opened =>
        { shelf with disk := openFile shelf.disk task.filePath opened }
      | some task, .done =>
        let shelf := { shelf with disk := insert task.filePath shelf.disk }
        if task.filePath = [] then shelf else register x shelf (newEntry req task.filePath x) := by
  unfold execute
  rcases tasks.findById taskId x.now with _ | task
  · rfl
  · have hpath := reportProgress_filePath (tasks.save { task with status := .Downloading })
      { task with status := .Downloading } x
    dsimp only at hpath ⊢
    rcases x.downloaded with _ | opened | opened
    · dsimp only
      rw [hpath]
      split_ifs <;> rfl
    · dsimp only
      rw [hpath]
    · dsimp only
      rw [hpath]

/-- A download that replaces an entry takes no file that another row names. -/
def Catalog.Unshared (s : Catalog) : Operation → Prop
  | .executeDownload i x => ∀ taskId req task, s.queued[i]? = some (taskId, req) →
      s.tasks.findById taskId x.now = some task → x.downloaded = .done → task.filePath ≠ [] →
      Download.Unshared s.shelf (newEntry req task.filePath x) x
  | _ => True

theorem spares_openFile (shelf : Shelf) (filePath : Str) (opened : Bool) :
    shelf.Spares { shelf with disk := openFile shelf.disk filePath opened } := by
  intro path hpath hgone
  refine absurd ?_ hgone
  dsimp only [openFile]
  split_ifs
  · exact Finset.mem_insert_of_mem hpath
  · exact hpath

theorem step_spares_iff (config : DownloadConfig) (s : Catalog) (op : Operation) :
    s.shelf.Spares (s.step config op).shelf ↔ s.Unshared op := by
  have hsame : s.shelf.Spares s.shelf := fun _ hpath hgone => absurd hpath hgone
  cases op with
  | createTask now created req => exact ⟨fun _ => trivial, fun _ => hsame⟩
  | deleteFiles denied ids =>
    exact ⟨fun _ => trivial, fun _ => (Shelf.deleteFiles_spares denied ids s.shelf).1⟩
  | removeExpired denied now =>
    exact ⟨fun _ => trivial, fun _ => (Shelf.deleteFiles_spares denied _ s.shelf).1⟩
  | executeDownload i x =>
    unfold Catalog.step Catalog.Unshared
    dsimp only
    rcases hjob : s.queued[i]? with _ | ⟨taskId, req⟩
    · exact ⟨fun _ _ _ _ => nofun, fun _ => hsame⟩
    · dsimp only
      rw [execute_shelf]
      rcases hfound : s.tasks.findById taskId x.now with _ | task
      · refine ⟨?_, fun _ => hsame⟩
        intro _ taskId' req' task' h
        obtain ⟨rfl, rfl⟩ := Prod.mk.inj (Option.some.inj h)
        rw [hfound]
        nofun
      · rcases hdown : x.downloaded with _ | opened | opened
        · dsimp only
          by_cases hempty : task.filePath = []
          · rw [if_pos hempty]
            constructor
            · intro _ taskId' req' task' h hfound' _ hne
              obtain ⟨rfl, rfl⟩ := Prod.mk.inj (Option.some.inj h)
              obtain rfl := Option.some.inj (hfound.symm.trans hfound')
              exact absurd hempty hne
            · intro _
              exact spares_openFile s.shelf task.filePath true
          · rw [if_neg hempty]
            have hplain := TaskTable.filePath_of_findById hfound
            refine (@register_spares_iff s.shelf (newEntry req task.filePath x) x hplain).trans ?_
            constructor
            · intro hun taskId' req' task' h hfound' _ _
              obtain ⟨rfl, rfl⟩ := Prod.mk.inj (Option.some.inj h)
              obtain rfl := Option.some.inj (hfound.symm.trans hfound')
              exact hun
            · intro hun
              exact hun taskId req task rfl hfound rfl hempty
        · exact ⟨fun _ _ _ _ _ _ => nofun, fun _ => spares_openFile s.shelf task.filePath opened⟩
        · exact ⟨fun _ _ _ _ _ _ => nofun, fun _ => spares_openFile s.shelf task.filePath opened⟩

/-- **Files of other rows.**  The operations of a run remove no file that a remaining row names
    exactly when no replacement in it meets a shared path. -/
theorem keeps_iff_unshared (config : DownloadConfig) (s : Catalog) (run : List Operation) :
    Run.Each (Catalog.step config) (fun s op => s.shelf.Spares (s.step config op).shelf) s run ↔
      Run.Each (Catalog.step config) Catalog.Unshared s run :=
  Run.each_iff (I := fun _ => True) (fun _ _ _ => trivial)
    (fun s op _ => step_spares_iff config s op) trivial run

/-! ## Two tasks of one millisecond -/

/-- A download that succeeds and is recognised as the song `s` of `r`. -/
def recognised : Execution where
  now := 0
  steady := 0
  progress := []
  downloaded := .done
  fetched := some ⟨lit "s", lit "r", [], [], false⟩
  fileSize := 0
  downloadedAt := 0
  tie := 0
  denied := ∅

/-- A song is downloaded for two platforms in the same millisecond, and a second later again for
    the first. -/
def samePath : List Operation :=
  let song platform : CreateTaskRequest := ⟨lit "url", lit "song", platform, 0⟩
  [.createTask 0 0 (song (lit "a")), .createTask 0 0 (song (lit "b")),
    .executeDownload 0 recognised, .executeDownload 0 recognised,
    .createTask (10 ^ 9) (10 ^ 9) (song (lit "a")), .executeDownload 0 recognised]

theorem shared_lost :
    ¬ Run.Each (Catalog.step {}) (fun s op => s.shelf.Spares (s.step {} op).shelf)
      { shelf := ⟨.empty, ∅⟩ } samePath := by
  decide +kernel

end NarMusic.Download
