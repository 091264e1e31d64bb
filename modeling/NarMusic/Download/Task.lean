/-
  Download tasks (`domain/task.cpp`) and their table
  (`infrastructure/persistence/sqlite_task_repository.cpp`).

  A time is in nanoseconds since the epoch, a column `created_at` in seconds.  The
  text of a column is bound up to its first NUL.  Constructing a task reads the
  clock, so a task that is read back is as old as the reading.
-/
import Mathlib.Data.List.Nodup
import NarMusic.Lib.Bytes

namespace NarMusic

open Cxx

/-- A reading of the system clock. -/
abbrev Time := ℤ

namespace Time

/-- `duration_cast` rounds towards zero. -/
def seconds (t : Time) : ℤ := t.tdiv (10 ^ 9)

def milliseconds (t : Time) : ℤ := t.tdiv (10 ^ 6)

end Time

inductive TaskStatus where
  | Pending
  | Downloading
  | Finished
  | Failed
  deriving DecidableEq

structure Task where
  id : Str
  url : Str
  filePath : Str
  displayName : Str
  delayMs : ℤ
  status : TaskStatus := .Pending
  downloadedBytes : ℤ := 0
  createdAt : Time
  inUse : Bool := false
  deriving DecidableEq

/-- The columns of a row of `tasks`. -/
structure TaskRow where
  id : Str
  url : Str
  status : TaskStatus
  downloadedBytes : ℤ
  filePath : Str
  displayName : Str
  delayMs : ℤ
  inUse : Bool
  createdAt : ℤ
  deriving DecidableEq

namespace TaskRow

/-- The row that `save` binds. -/
def ofTask (task : Task) : TaskRow where
  id := cStr task.id
  url := cStr task.url
  status := task.status
  downloadedBytes := task.downloadedBytes
  filePath := cStr task.filePath
  displayName := cStr task.displayName
  delayMs := task.delayMs
  inUse := task.inUse
  createdAt := task.createdAt.seconds

/-- The task that `findById` constructs from a row. -/
def toTask (now : Time) (row : TaskRow) : Task where
  id := row.id
  url := row.url
  filePath := row.filePath
  displayName := row.displayName
  delayMs := row.delayMs
  status := row.status
  downloadedBytes := row.downloadedBytes
  createdAt := now
  inUse := row.inUse

/-- The download of the task has no outcome yet. -/
def Unfinished (row : TaskRow) : Prop := row.status = .Pending ∨ row.status = .Downloading

instance (row : TaskRow) : Decidable row.Unfinished := inferInstanceAs (Decidable (_ ∨ _))

/-- `created_at < ? AND in_use = 0`. -/
def Removable (cutoff : ℤ) (row : TaskRow) : Prop := row.createdAt < cutoff ∧ row.inUse = false

instance (cutoff : ℤ) (row : TaskRow) : Decidable (row.Removable cutoff) :=
  inferInstanceAs (Decidable (_ ∧ _))

/-- `SET in_use = 0 WHERE created_at < ? AND in_use = 1`. -/
def release (cutoff : ℤ) (row : TaskRow) : TaskRow :=
  if row.createdAt < cutoff ∧ row.inUse = true then { row with inUse := false } else row

@[simp] theorem release_id (cutoff : ℤ) (row : TaskRow) : (row.release cutoff).id = row.id := by
  unfold release
  split_ifs <;> rfl

@[simp] theorem release_status (cutoff : ℤ) (row : TaskRow) :
    (row.release cutoff).status = row.status := by
  unfold release
  split_ifs <;> rfl

@[simp] theorem release_filePath (cutoff : ℤ) (row : TaskRow) :
    (row.release cutoff).filePath = row.filePath := by
  unfold release
  split_ifs <;> rfl

@[simp] theorem release_createdAt (cutoff : ℤ) (row : TaskRow) :
    (row.release cutoff).createdAt = row.createdAt := by
  unfold release
  split_ifs <;> rfl

end TaskRow

/-- The table `tasks`, whose primary key is `id`. -/
structure TaskTable where
  rows : List TaskRow
  nodup : (rows.map TaskRow.id).Nodup
  plain : ∀ row ∈ rows, cStr row.filePath = row.filePath

namespace TaskTable

def empty : TaskTable := ⟨[], List.nodup_nil, by simp⟩

/-- `INSERT OR REPLACE`; `update` is the same. -/
def save (table : TaskTable) (task : Task) : TaskTable where
  rows := table.rows.filter (·.id ≠ cStr task.id) ++ [.ofTask task]
  nodup := by
    rw [List.map_append, List.nodup_append]
    refine ⟨table.nodup.sublist (List.filter_sublist.map _), List.nodup_singleton _, ?_⟩
    intro id hid id' hid'
    obtain ⟨row, hrow, rfl⟩ := List.mem_map.1 hid
    obtain rfl := List.mem_singleton.1 hid'
    exact of_decide_eq_true (List.mem_filter.1 hrow).2
  plain := by
    intro row hrow
    rcases List.mem_append.1 hrow with hrow | hrow
    · exact table.plain row (List.mem_filter.1 hrow).1
    · obtain rfl := List.mem_singleton.1 hrow
      exact cStr_cStr task.filePath

def findById (table : TaskTable) (id : Str) (now : Time) : Option Task :=
  (table.rows.find? (·.id = cStr id)).map (·.toTask now)

/-- The rows that `removeOlderThan` deletes. -/
def older (table : TaskTable) (seconds : ℤ) (now : Time) : List TaskRow :=
  if seconds ≤ 0 then [] else table.rows.filter (·.Removable (now.seconds - seconds))

def removeOlderThan (table : TaskTable) (seconds : ℤ) (now : Time) : TaskTable :=
  if seconds ≤ 0 then table
  else
    let cutoff := now.seconds - seconds
    { rows := (table.rows.filter (¬ ·.Removable cutoff)).map (·.release cutoff)
      nodup := by
        rw [List.map_map, show TaskRow.id ∘ (·.release cutoff) = TaskRow.id from funext (by simp)]
        exact table.nodup.sublist (List.filter_sublist.map _)
      plain := by
        intro row hrow
        obtain ⟨old, hold, rfl⟩ := List.mem_map.1 hrow
        rw [TaskRow.release_filePath]
        exact table.plain old (List.mem_filter.1 hold).1 }

theorem mem_save {table : TaskTable} {task : Task} {row : TaskRow} :
    row ∈ (table.save task).rows ↔
      (row ∈ table.rows ∧ row.id ≠ cStr task.id) ∨ row = .ofTask task := by
  simp [save]

/-- The row of the task that has been saved. -/
theorem eq_of_mem_save {table : TaskTable} {task : Task} {row : TaskRow}
    (hrow : row ∈ (table.save task).rows) (hid : row.id = cStr task.id) : row = .ofTask task := by
  rcases mem_save.1 hrow with ⟨-, hne⟩ | rfl
  · exact absurd hid hne
  · rfl

theorem id_of_findById {table : TaskTable} {id : Str} {now : Time} {task : Task}
    (h : table.findById id now = some task) : task.id = cStr id := by
  obtain ⟨row, hrow, rfl⟩ := Option.map_eq_some_iff.1 h
  have hid := List.find?_some hrow
  exact of_decide_eq_true hid

theorem filePath_of_findById {table : TaskTable} {id : Str} {now : Time} {task : Task}
    (h : table.findById id now = some task) : cStr task.filePath = task.filePath := by
  obtain ⟨row, hrow, rfl⟩ := Option.map_eq_some_iff.1 h
  exact table.plain row (List.mem_of_find?_eq_some hrow)

theorem findById_isSome {table : TaskTable} {id : Str} (now : Time) {row : TaskRow}
    (hrow : row ∈ table.rows) (hid : row.id = cStr id) : table.findById id now ≠ none := by
  intro h
  have hnone := List.find?_eq_none.1 (Option.map_eq_none_iff.1 h) row hrow
  simp [hid] at hnone

/-- A task that has been saved is found, with the time of the reading. -/
theorem findById_save (table : TaskTable) (task : Task) (now : Time) :
    (table.save task).findById task.id now = some ((TaskRow.ofTask task).toTask now) := by
  cases hfind : (table.save task).rows.find? (·.id = cStr task.id) with
  | none =>
    have hnone := List.find?_eq_none.1 hfind (.ofTask task) (mem_save.2 (Or.inr rfl))
    exact absurd (decide_eq_true rfl) hnone
  | some row =>
    have hid := List.find?_some hfind
    obtain rfl := eq_of_mem_save (List.mem_of_find?_eq_some hfind) (of_decide_eq_true hid)
    simp only [findById, hfind, Option.map_some]

/-- A row that is left is an old one, perhaps released. -/
theorem of_mem_removeOlderThan {table : TaskTable} {seconds : ℤ} {now : Time} {row : TaskRow}
    (h : row ∈ (table.removeOlderThan seconds now).rows) :
    ∃ old ∈ table.rows, old.id = row.id ∧ old.status = row.status ∧ old.createdAt = row.createdAt := by
  unfold removeOlderThan at h
  split_ifs at h
  · exact ⟨row, h, rfl, rfl, rfl⟩
  · obtain ⟨old, hold, rfl⟩ := List.mem_map.1 h
    exact ⟨old, (List.mem_filter.1 hold).1, by simp⟩

/-- A row that is not deleted is left, perhaps released. -/
theorem mem_removeOlderThan {table : TaskTable} {seconds : ℤ} {now : Time} {row : TaskRow}
    (hrow : row ∈ table.rows) (hnot : row ∉ table.older seconds now) :
    ∃ new ∈ (table.removeOlderThan seconds now).rows, new.id = row.id ∧ new.status = row.status := by
  unfold older at hnot
  unfold removeOlderThan
  split_ifs at hnot ⊢
  · exact ⟨row, hrow, rfl, rfl⟩
  · refine ⟨row.release _, List.mem_map_of_mem (List.mem_filter.2 ⟨hrow, ?_⟩), by simp⟩
    simpa [hrow] using hnot

end TaskTable

end NarMusic
