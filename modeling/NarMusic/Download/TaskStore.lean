/-
  The statements of `SqliteTaskRepository`, with their parameters and columns by
  position.

  * Every column comes back but `created_at`, which is selected and not read: a task
    that is read back is as old as the reading (`findById_save`).  So what is saved
    comes back, and stays through updates, exactly while the clock shows the second
    of `created_at` (`kept_iff`).
  * On the rows that `save` makes the statements do what the operations of `TaskTable`
    do (`Represents`).
-/
import NarMusic.Lib.Run
import NarMusic.Lib.Sql
import NarMusic.Download.Task

namespace NarMusic.TaskStore

open Cxx Sql

/-- The columns of the table `tasks`. -/
inductive Column where
  | id
  | url
  | status
  | downloaded_bytes
  | file_path
  | display_name
  | delay_ms
  | in_use
  | created_at
  deriving DecidableEq

/-- The table `tasks`. -/
abbrev Store := Table Column.id

/-- The columns of `INSERT OR REPLACE`. -/
def insertColumns : List Column :=
  [.id, .url, .status, .downloaded_bytes, .file_path, .display_name, .delay_ms, .in_use, .created_at]

/-- The columns of `SELECT`. -/
def selectColumns : List Column :=
  [.id, .url, .status, .downloaded_bytes, .file_path, .display_name, .delay_ms, .in_use, .created_at]

def statusInt : TaskStatus → ℤ
  | .Pending => 0
  | .Downloading => 1
  | .Finished => 2
  | .Failed => 3

/-- `static_cast<TaskStatus>`; `save` binds no other number. -/
def statusOf (n : ℤ) : TaskStatus :=
  if n = 1 then .Downloading else if n = 2 then .Finished else if n = 3 then .Failed else .Pending

/-- The parameters that `save` binds. -/
def bound (task : Task) : ℕ → Value :=
  params [(1, .ofStr task.id), (2, .ofStr task.url), (3, .integer (statusInt task.status)),
    (4, .integer task.downloadedBytes), (5, .ofStr task.filePath), (6, .ofStr task.displayName),
    (7, .integer task.delayMs), (8, .integer (if task.inUse then 1 else 0)),
    (9, .integer task.createdAt.seconds)]

def save (store : Store) (task : Task) : Store := store.replace (insertRow insertColumns (bound task))

def update (store : Store) (task : Task) : Store := save store task

/-- The constructor `Task::Task`, at the time `now`. -/
def construct (now : Time) (id url filePath displayName : Str) (delayMs : ℤ) : Task where
  id
  url
  filePath
  displayName
  delayMs
  createdAt := now

/-- The task that `findById` makes of a result row. -/
def readTask (now : Time) (vals : List Value) : Task :=
  { construct now (column vals 0).toStr (column vals 1).toStr (column vals 4).toStr
      (column vals 5).toStr (column vals 6).toInt32 with
    status := statusOf (column vals 2).toInt32
    downloadedBytes := (column vals 3).toInt
    inUse := decide ((column vals 7).toInt32 ≠ 0) }

def findById (store : Store) (id : Str) (now : Time) : Option Task :=
  (store.select (.ofStr id)).map fun row => readTask now (project selectColumns row)

/-- `DELETE ... WHERE created_at < ? AND in_use = 0`, then
    `UPDATE ... SET in_use = 0 WHERE created_at < ? AND in_use = 1`. -/
def removeOlderThan (store : Store) (seconds : ℤ) (now : Time) : Store :=
  if seconds ≤ 0 then store
  else
    let cutoff := now.seconds - seconds
    (store.delete fun row => (row .created_at).toInt < cutoff ∧ (row .in_use).toInt = 0).update
      (fun row => (row .created_at).toInt < cutoff ∧ (row .in_use).toInt = 1)
      (assign [.in_use] fun _ => .integer 0) fun _ => rfl

/-! ## The columns of a row -/

/-- The values of a row of `tasks`. -/
def columns (row : TaskRow) : Row Column
  | .id => .text row.id
  | .url => .text row.url
  | .status => .integer (statusInt row.status)
  | .downloaded_bytes => .integer row.downloadedBytes
  | .file_path => .text row.filePath
  | .display_name => .text row.displayName
  | .delay_ms => .integer row.delayMs
  | .in_use => .integer (if row.inUse then 1 else 0)
  | .created_at => .integer row.createdAt

theorem insertRow_bound (task : Task) : insertRow insertColumns (bound task) = columns (.ofTask task) := by
  funext c
  cases c <;> rfl

/-- The row reads back: its strings have no NUL, its delay is an `int`. -/
structure Readable (row : TaskRow) : Prop where
  id : cStr row.id = row.id
  url : cStr row.url = row.url
  filePath : cStr row.filePath = row.filePath
  displayName : cStr row.displayName = row.displayName
  delayMs : int32 row.delayMs = row.delayMs

theorem statusOf_statusInt (status : TaskStatus) : statusOf (int32 (statusInt status)) = status := by
  cases status <;> decide

theorem readTask_columns (now : Time) {row : TaskRow} (h : Readable row) :
    readTask now (project selectColumns (columns row)) = row.toTask now := by
  have hflag : decide (int32 (if row.inUse then 1 else 0) ≠ 0) = row.inUse := by
    cases row.inUse <;> decide
  unfold readTask TaskRow.toTask construct
  simp only [project, selectColumns, List.map_cons, List.map_nil, column, List.getD_cons_zero,
    List.getD_cons_succ, columns, Value.toStr_text, Value.toInt_integer, Value.toInt32_integer, h.id,
    h.url, h.filePath, h.displayName, h.delayMs, statusOf_statusInt, hflag]

/-! ## What is saved, and what comes back -/

/-- The strings of the task have no NUL, and its delay is an `int`. -/
structure Plain (task : Task) : Prop where
  id : 0 ∉ task.id
  url : 0 ∉ task.url
  filePath : 0 ∉ task.filePath
  displayName : 0 ∉ task.displayName
  delayMs : IsInt32 task.delayMs

theorem readable_ofTask {task : Task} (h : int32 task.delayMs = task.delayMs) :
    Readable (.ofTask task) where
  id := cStr_cStr _
  url := cStr_cStr _
  filePath := cStr_cStr _
  displayName := cStr_cStr _
  delayMs := h

theorem findById_save (store : Store) {task : Task} (h : Plain task) (now : Time) :
    findById (save store task) task.id now = some { task with createdAt := now } := by
  have hself := Table.select_replace_self store (insertRow insertColumns (bound task))
  unfold findById save
  rw [insertRow_bound] at hself ⊢
  rw [show Value.ofStr task.id = columns (.ofTask task) .id from rfl, hself, Option.map_some,
    readTask_columns now (readable_ofTask (int32_of_isInt32 h.delayMs))]
  simp only [TaskRow.toTask, TaskRow.ofTask, cStr_of_notMem h.id, cStr_of_notMem h.url,
    cStr_of_notMem h.filePath, cStr_of_notMem h.displayName]

/-- The task that comes back is the one that was saved, but for the fraction of a second in its
    time. -/
def GivenBack (store : Store) (task : Task) (now : Time) : Prop :=
  ∃ found, findById (save store task) task.id now = some found ∧
    { found with createdAt := task.createdAt } = task ∧
    found.createdAt.seconds = task.createdAt.seconds

theorem givenBack_iff (store : Store) {task : Task} (h : Plain task) (now : Time) :
    GivenBack store task now ↔ now.seconds = task.createdAt.seconds := by
  unfold GivenBack
  rw [findById_save store h now]
  constructor
  · rintro ⟨found, hfound, -, hsec⟩
    obtain rfl := Option.some.inj hfound
    exact hsec
  · intro hsec
    exact ⟨_, rfl, rfl, hsec⟩

/-! ## Updates -/

/-- A modification of a task that has been loaded. -/
inductive Change where
  | setStatus (status : TaskStatus)
  | setDownloadedBytes (bytes : ℤ)

def Change.apply (task : Task) : Change → Task
  | setStatus status => { task with status }
  | setDownloadedBytes bytes => { task with downloadedBytes := bytes }

/-- The task `id` is loaded, modified and updated; `now` is the clock when it is loaded. -/
def cycle (id : Str) (store : Store) : Time × Change → Store
  | (now, change) =>
    match findById store id now with
    | some task => update store (change.apply task)
    | none => store

/-- The column `created_at` of the row `id`. -/
def createdAt (store : Store) (id : Str) : Option Value := (store.select (.ofStr id)).map (· .created_at)

/-- After each cycle, `created_at` is still what it was at first. -/
def StaysCreated (store : Store) (task : Task) (cycles : List (Time × Change)) : Prop :=
  Run.Each (cycle task.id)
    (fun store c => createdAt (cycle task.id store c) task.id = some (.integer task.createdAt.seconds))
    (save store task) cycles

theorem Change.apply_plain {task : Task} (h : Plain task) (change : Change) : Plain (change.apply task) := by
  cases change <;> exact ⟨h.id, h.url, h.filePath, h.displayName, h.delayMs⟩

theorem Change.apply_id (task : Task) (change : Change) : (change.apply task).id = task.id := by
  cases change <;> rfl

theorem createdAt_save (store : Store) (task : Task) :
    createdAt (save store task) task.id = some (.integer task.createdAt.seconds) := by
  have hself := Table.select_replace_self store (insertRow insertColumns (bound task))
  unfold createdAt save
  rw [insertRow_bound] at hself ⊢
  rw [show Value.ofStr task.id = columns (.ofTask task) .id from rfl, hself]
  rfl

/-- A cycle writes the time at which the task was loaded. -/
theorem cycle_save (store : Store) {task : Task} (h : Plain task) (now : Time) (change : Change) :
    ∃ task', task'.id = task.id ∧ Plain task' ∧ task'.createdAt = now ∧
      cycle task.id (save store task) (now, change) = save (save store task) task' := by
  refine ⟨change.apply { task with createdAt := now }, change.apply_id _, ?_, ?_, ?_⟩
  · refine Change.apply_plain ?_ change
    exact ⟨h.id, h.url, h.filePath, h.displayName, h.delayMs⟩
  · cases change <;> rfl
  · simp only [cycle, findById_save store h now, update]

theorem each_cycle_iff (cycles : List (Time × Change)) {store : Store} {task : Task} (h : Plain task)
    (first : ℤ) :
    Run.Each (cycle task.id)
        (fun store c => createdAt (cycle task.id store c) task.id = some (.integer first))
        (save store task) cycles ↔
      ∀ c ∈ cycles, c.1.seconds = first := by
  induction cycles generalizing store task with
  | nil => simp [Run.Each]
  | cons c cycles ih =>
    obtain ⟨now, change⟩ := c
    obtain ⟨task', hid, hplain, hnow, hcycle⟩ := cycle_save store h now change
    have hcreated := createdAt_save (save store task) task'
    rw [hid, hnow] at hcreated
    have ih := @ih (save store task) task' hplain
    rw [hid] at ih
    rw [Run.Each, hcycle, hcreated, ih, List.forall_mem_cons, Option.some.injEq, Value.integer.injEq]

/-- **Saving and loading a task.**  The task comes back, and its time stays through updates,
    exactly where it is loaded in the second in which it was created. -/
theorem kept_iff (store : Store) {task : Task} (h : Plain task) (now : Time)
    (cycles : List (Time × Change)) :
    (GivenBack store task now ↔ now.seconds = task.createdAt.seconds) ∧
      (StaysCreated store task cycles ↔ ∀ c ∈ cycles, c.1.seconds = task.createdAt.seconds) :=
  ⟨givenBack_iff store h now, each_cycle_iff cycles h task.createdAt.seconds⟩

/-- A task that is created at the time 0. -/
def firstTask : Task where
  id := lit "task_0_0"
  url := lit "url"
  filePath := lit "./download/song_0.m4a"
  displayName := lit "song"
  delayMs := -500
  createdAt := 0

theorem firstTask_plain : Plain firstTask := by
  constructor <;> decide +kernel

theorem firstTask_kept :
    GivenBack .empty firstTask 999999999 ∧
      StaysCreated .empty firstTask [(0, .setStatus .Downloading), (5, .setDownloadedBytes 7)] := by
  obtain ⟨hback, hstays⟩ := kept_iff .empty firstTask_plain 999999999
    [(0, .setStatus .Downloading), (5, .setDownloadedBytes 7)]
  constructor
  · exact hback.2 (by decide)
  · exact hstays.2 (by decide)

/-- A second later it is a second younger. -/
theorem firstTask_younger :
    Plain firstTask ∧ ¬ GivenBack .empty firstTask (10 ^ 9) ∧
      ¬ StaysCreated .empty firstTask [(10 ^ 9, .setStatus .Downloading)] := by
  refine ⟨firstTask_plain, ?_, ?_⟩
  · rw [givenBack_iff .empty firstTask_plain]
    decide
  · unfold StaysCreated
    rw [each_cycle_iff _ firstTask_plain]
    decide

/-! ## The table of rows -/

/-- The store holds the rows of the table. -/
structure Represents (store : Store) (table : TaskTable) : Prop where
  rows : store.rows = table.rows.map columns
  readable : ∀ row ∈ table.rows, Readable row

theorem represents_empty : Represents .empty .empty := ⟨rfl, by simp [TaskTable.empty]⟩

theorem represents_save {store : Store} {table : TaskTable} (h : Represents store table) {task : Task}
    (hdelay : int32 task.delayMs = task.delayMs) :
    Represents (save store task) (table.save task) where
  rows := by
    unfold save
    rw [insertRow_bound]
    simp only [Table.replace, Table.insert, Table.delete, TaskTable.save, h.rows, List.filter_map,
      List.map_append, List.map_cons, List.map_nil]
    congr 3
    funext row
    simp [columns, TaskRow.ofTask]
  readable := by
    intro row hrow
    rcases TaskTable.mem_save.1 hrow with ⟨hrow, -⟩ | rfl
    · exact h.readable row hrow
    · exact readable_ofTask hdelay

theorem represents_removeOlderThan {store : Store} {table : TaskTable} (h : Represents store table)
    (seconds : ℤ) (now : Time) :
    Represents (removeOlderThan store seconds now) (table.removeOlderThan seconds now) := by
  unfold removeOlderThan TaskTable.removeOlderThan
  split_ifs
  · exact h
  have hflag : ∀ b : Bool, ((if b then (1 : ℤ) else 0) = 0 ↔ b = false) ∧
      ((if b then (1 : ℤ) else 0) = 1 ↔ b = true) := by decide
  constructor
  · simp only [Table.update, Table.delete, h.rows, List.filter_map, List.map_map]
    congr 1
    · funext row
      simp only [Function.comp, columns, Value.toInt_integer, (hflag row.inUse).2, TaskRow.release]
      split_ifs
      · funext c
        cases c <;> rfl
      · rfl
    · congr 1
      funext row
      refine decide_eq_decide.2 ?_
      simp only [columns, Value.toInt_integer, (hflag row.inUse).1, TaskRow.Removable]
  · intro row hrow
    obtain ⟨old, hold, rfl⟩ := List.mem_map.1 hrow
    have hread := h.readable old (List.mem_filter.1 hold).1
    unfold TaskRow.release
    split_ifs
    · exact ⟨hread.id, hread.url, hread.filePath, hread.displayName, hread.delayMs⟩
    · exact hread

theorem findById_represents {store : Store} {table : TaskTable} (h : Represents store table) (id : Str)
    (now : Time) : findById store id now = table.findById id now := by
  have hfind : store.select (.ofStr id) = (table.rows.find? (·.id = cStr id)).map columns := by
    rw [Table.select, h.rows, List.find?_map]
    congr 2
    funext row
    simp [columns, Value.ofStr]
  rw [findById, hfind, TaskTable.findById, Option.map_map]
  refine Option.map_congr fun row hrow => ?_
  exact readTask_columns now (h.readable row (List.mem_of_find?_eq_some hrow))

end NarMusic.TaskStore
