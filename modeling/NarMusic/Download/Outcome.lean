/-
  How a call of `executeDownload` ends.

  The task is to end as `Finished`, with a row of the library for its file, or as
  `Failed`, without a row and without the file (`Clean`).  An exception leaves the
  task `Downloading`, and a download that fails leaves what it has written: so the end
  is clean exactly when the file has come, or was never opened (`clean_iff`).  What
  `writeMetadata` answers is not looked at, and an exception of `fetchBest` is caught.
-/
import NarMusic.Download.Replace

namespace NarMusic.Download

open Cxx

/-- The task `id` is `Finished` and in the library, or `Failed` with neither a row nor a file. -/
def Clean (s : Catalog) (id : Str) : Prop :=
  ∃ row ∈ s.tasks.rows, row.id = cStr id ∧
    ((row.status = .Finished ∧ ∃ entry ∈ s.shelf.table.rows, entry.filePath = row.filePath) ∨
      (row.status = .Failed ∧ row.filePath ∉ s.shelf.disk ∧
        ∀ entry ∈ s.shelf.table.rows, entry.filePath ≠ row.filePath))

instance (s : Catalog) (id : Str) : Decidable (Clean s id) :=
  inferInstanceAs (Decidable (∃ row ∈ s.tasks.rows, _ ∧ (_ ∨ _)))

/-- The task is found, and the download succeeds, or fails before it opens the file, where there is
    neither a file nor a row. -/
def EndsWell (s : Catalog) (id : Str) (x : Execution) : Prop :=
  ∃ task, s.tasks.findById id x.now = some task ∧
    match x.downloaded with
    | .done => task.filePath ≠ []
    | .failed opened => opened = false ∧ task.filePath ∉ s.shelf.disk ∧
        ∀ entry ∈ s.shelf.table.rows, entry.filePath ≠ task.filePath
    | .threw _ => False

/-! ## The row of the task -/

/-- The task that `executeDownload` holds, and the rows of its id, while it is downloading. -/
structure Underway (found task : Task) (tasks : TaskTable) : Prop where
  id : task.id = found.id
  filePath : task.filePath = found.filePath
  status : task.status = .Downloading
  row : ∀ row ∈ tasks.rows, row.id = cStr found.id → row.status = .Downloading

theorem Underway.save {found task : Task} {tasks tasks' : TaskTable} (h : Underway found task tasks') :
    Underway found task (tasks.save task) := by
  refine ⟨h.id, h.filePath, h.status, ?_⟩
  intro row hrow hid
  obtain rfl := TaskTable.eq_of_mem_save hrow (h.id ▸ hid)
  exact h.status

theorem underway_reportProgress (tasks : TaskTable) (found : Task) (x : Execution) :
    let task := { found with status := .Downloading }
    Underway found (reportProgress (tasks.save task) task x).1 (reportProgress (tasks.save task) task x).2 := by
  refine reportProgress_inv ?_ x ?_
  · intro task tasks bytes h
    have hset : Underway found { task with downloadedBytes := bytes } tasks :=
      ⟨h.id, h.filePath, h.status, h.row⟩
    exact ⟨hset, hset.save⟩
  · have hempty : Underway found { found with status := .Downloading } .empty := ⟨rfl, rfl, rfl, nofun⟩
    exact hempty.save

/-- Registering an entry leaves a row with its path. -/
theorem exists_register (x : Execution) (shelf : Shelf) (entry : MusicLibraryEntry) :
    ∃ row ∈ (register x shelf entry).table.rows, row.filePath = cStr entry.filePath := by
  unfold register
  split
  · next old hold =>
    -- the old row is there, and takes the columns of the entry
    have hmem : ∃ row ∈ shelf.table.rows, row.id = old.id := by
      unfold existing LibraryTable.findBySongArtistPlatformDelay at hold
      split_ifs at hold
      obtain ⟨row, hrow, rfl⟩ := Option.map_eq_some_iff.1 hold
      have hlatest := List.mem_of_getElem? hrow
      exact ⟨row, (List.mem_filter.1 (List.mem_filter.1 hlatest).1).1, rfl⟩
    obtain ⟨row, hrow, hid⟩ := hmem
    have hupdate : LibraryRow.ofEntry old.id { entry with id := old.id } ∈
        (shelf.table.update { entry with id := old.id }).rows :=
      List.mem_map.2 ⟨row, hrow, if_pos hid⟩
    refine ⟨.ofEntry old.id { entry with id := old.id }, ?_, rfl⟩
    unfold replaceEntry
    dsimp only
    split_ifs
    · exact List.mem_append_left _ hupdate
    · exact hupdate
  · exact ⟨.ofEntry (shelf.table.seq + 1) entry, List.mem_append_right _ (List.mem_singleton_self _), rfl⟩

theorem notMem_openFile {disk : Finset Str} {filePath : Str} {opened : Bool} :
    filePath ∉ openFile disk filePath opened ↔ opened = false ∧ filePath ∉ disk := by
  cases opened <;> simp [openFile]

/-! ## The end -/

/-- The call runs, and is queued no more. -/
theorem step_executeDownload (config : DownloadConfig) {s : Catalog} {i : ℕ} (x : Execution) {id : Str}
    {req : CreateTaskRequest} (h : s.queued[i]? = some (id, req)) :
    s.step config (.executeDownload i x) =
      { s with
        tasks := (execute s.tasks s.shelf id req x).1
        shelf := (execute s.tasks s.shelf id req x).2
        queued := s.queued.eraseIdx i } := by
  unfold Catalog.step
  dsimp only
  rw [h]

/-- The end after the task has been saved. -/
theorem clean_saved {s : Catalog} {id : Str} (table : TaskTable) (task : Task)
    (htasks : s.tasks = table.save task) (hid : cStr task.id = cStr id) :
    Clean s id ↔
      (task.status = .Finished ∧ ∃ entry ∈ s.shelf.table.rows, entry.filePath = cStr task.filePath) ∨
        (task.status = .Failed ∧ cStr task.filePath ∉ s.shelf.disk ∧
          ∀ entry ∈ s.shelf.table.rows, entry.filePath ≠ cStr task.filePath) := by
  unfold Clean
  rw [htasks]
  constructor
  · rintro ⟨row, hrow, hrowid, hend⟩
    obtain rfl := TaskTable.eq_of_mem_save hrow (hrowid.trans hid.symm)
    exact hend
  · intro hend
    exact ⟨.ofTask task, TaskTable.mem_save.2 (Or.inr rfl), hid, hend⟩

/-- **The two clean ends.**  After a call of `executeDownload` the task is `Finished` with its row, or
    `Failed` with neither a row nor a file, exactly when the call ends well. -/
theorem clean_iff (config : DownloadConfig) (s : Catalog) {i : ℕ} {x : Execution} {id : Str}
    {req : CreateTaskRequest} (h : s.queued[i]? = some (id, req)) :
    Clean (s.step config (.executeDownload i x)) id ↔ EndsWell s id x := by
  rw [step_executeDownload config x h]
  unfold EndsWell execute
  rcases hfound : s.tasks.findById id x.now with _ | found
  · constructor
    · rintro ⟨row, hrow, hid, -⟩
      exact absurd hfound (TaskTable.findById_isSome x.now hrow hid)
    · rintro ⟨task, htask, -⟩
      cases htask
  have hfoundid : cStr found.id = cStr id := by rw [TaskTable.id_of_findById hfound, cStr_cStr]
  have hplain := TaskTable.filePath_of_findById hfound
  have hunder := underway_reportProgress s.tasks found x
  dsimp only at hunder ⊢
  generalize reportProgress _ _ x = reported at hunder ⊢
  obtain ⟨task, tasks⟩ := reported
  have hid : cStr task.id = cStr id := by rw [hunder.id, hfoundid]
  have hpath : cStr task.filePath = found.filePath := by rw [hunder.filePath, hplain]
  simp only [Option.some.injEq, exists_eq_left']
  rcases hdown : x.downloaded with _ | opened | opened
  · dsimp only
    by_cases hempty : task.filePath = []
    · -- the downloader has answered the empty path it was given
      have hnil : found.filePath = [] := hunder.filePath ▸ hempty
      rw [if_pos hempty, clean_saved (tasks.save task) { task with status := .Failed } rfl hid, hpath,
        hunder.filePath, notMem_openFile]
      simp [hnil]
    · rw [if_neg hempty, clean_saved (tasks.save task) { task with status := .Finished } rfl hid]
      obtain ⟨row, hrow, hrowpath⟩ := exists_register x
        { s.shelf with disk := openFile s.shelf.disk task.filePath true } (newEntry req task.filePath x)
      refine ⟨fun _ => hunder.filePath ▸ hempty, fun _ => Or.inl ⟨rfl, row, hrow, hrowpath⟩⟩
  · dsimp only
    rw [clean_saved (tasks.save task) { task with status := .Failed } rfl hid, hpath, hunder.filePath,
      notMem_openFile]
    simp [and_assoc]
  · refine ⟨?_, False.elim⟩
    rintro ⟨row, hrow, hrowid, hend⟩
    have hstatus := hunder.row row hrow (hrowid.trans hfoundid.symm)
    rcases hend with ⟨hfinished, -⟩ | ⟨hfailed, -⟩
    · exact absurd (hstatus.symm.trans hfinished) nofun
    · exact absurd (hstatus.symm.trans hfailed) nofun

/-- A song has been accepted, and nothing else. -/
def accepted : Catalog :=
  Catalog.step {} { shelf := ⟨.empty, ∅⟩ } (.createTask 0 0 ⟨lit "url", lit "song", lit "a", 0⟩)

theorem recognised_endsWell : EndsWell accepted (lit "task_0_0") recognised :=
  (clean_iff {} accepted (i := 0) (x := recognised) (by decide +kernel : accepted.queued[0]? =
    some (lit "task_0_0", ⟨lit "url", lit "song", lit "a", 0⟩))).1 (by decide +kernel)

/-- The downloader throws, or fails with a part of the file written. -/
theorem unclean :
    ¬ Clean (accepted.step {} (.executeDownload 0 { recognised with downloaded := .threw false })) (lit "task_0_0") ∧
      ¬ Clean (accepted.step {} (.executeDownload 0 { recognised with downloaded := .failed true }))
        (lit "task_0_0") := by
  decide +kernel

end NarMusic.Download
