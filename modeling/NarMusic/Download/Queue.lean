/-
  Accepted downloads (`application/download_service.cpp`): `createTask` saves a task
  and queues its download, a pool of five threads executes the queued downloads, and
  `cleanupExpiredTasks` removes old tasks.

  A job is a call of `createTask` with the call of `executeDownload` it leads to; its
  stage is where that call stands between two calls of the task repository.  A label
  is the next step of some job, or a cleanup; it carries the readings of the clocks
  and the answer of the downloader.  The pool is a priority queue of equal priorities,
  so any queued job may be the next.
-/
import NarMusic.Download.Task
import NarMusic.Lib.Int
import NarMusic.Lib.Run

namespace NarMusic

open Cxx

structure CreateTaskRequest where
  url : Str
  filename : Str
  platform : Str
  delayMs : ℤ
  deriving DecidableEq

structure DownloadConfig where
  path : Str := lit "./download/"
  extension : Str := lit ".m4a"
  max_age : ℤ := 600

namespace Download

/-- `taskId` of `createTask`. -/
def taskId (now : Time) (taskCounter : ℤ) : Str :=
  lit "task_" ++ decInt now.milliseconds ++ lit "_" ++ decInt taskCounter

/-- The file name, or one made from the clock. -/
def taskFilename (now : Time) (req : CreateTaskRequest) : Str :=
  if req.filename = [] then lit "music_" ++ decInt now.milliseconds else req.filename

def taskFilePath (config : DownloadConfig) (now : Time) (req : CreateTaskRequest) : Str :=
  config.path ++ taskFilename now req ++ lit "_" ++ decInt now.milliseconds ++ config.extension

/-- The task `createTask` saves; `created` is the clock in its constructor. -/
def newTask (config : DownloadConfig) (now created : Time) (taskCounter : ℤ)
    (req : CreateTaskRequest) : Task where
  id := taskId now taskCounter
  url := req.url
  filePath := taskFilePath config now req
  displayName := taskFilename now req
  delayMs := req.delayMs
  status := .Pending
  createdAt := created

inductive Stage where
  /-- `createTask` has saved the task. -/
  | saved
  | queued
  /-- A thread of the pool has called `executeDownload`. -/
  | begun
  | found (task : Task)
  /-- In the downloader, since `update` with the status `Downloading`. -/
  | downloading (task : Task) (lastProgressWrite : ℤ)
  /-- The downloader has returned, and `update` after it. -/
  | returned (task : Task) (filePath : Str)
  /-- An exception has left `executeDownload`; the pool drops it. -/
  | threw (task : Task)
  /-- `findById` has found nothing. -/
  | lost
  /-- `update` with the outcome. -/
  | ended
  deriving DecidableEq

/-- A step of `executeDownload`, up to its next call of the repository. -/
inductive Act where
  | findById (now : Time)
  | start (steady : ℤ)
  /-- The progress callback. -/
  | progress (bytes steady : ℤ)
  | download (filePath : Str)
  | throw
  | finish

/-- The task of the stage, if `executeDownload` holds one. -/
def Stage.task? : Stage → Option Task
  | .found task | .downloading task _ | .returned task _ | .threw task => some task
  | _ => none

/-- The progress callback: the task, the time of the last write, and the table. -/
def progressCallback (tasks : TaskTable) (task : Task) (lastProgressWrite bytes steady : ℤ) :
    Task × ℤ × TaskTable :=
  let task := { task with downloadedBytes := bytes }
  if 2 ≤ (steady - lastProgressWrite).tdiv (10 ^ 9) then (task, steady, tasks.save task)
  else (task, lastProgressWrite, tasks)

/-- A step of `executeDownload` for the task `id`; the library is left out. -/
def executeDownload (tasks : TaskTable) (id : Str) : Stage → Act → Option (Stage × TaskTable)
  | .begun, .findById now =>
    match tasks.findById id now with
    | none => some (.lost, tasks)
    | some task => some (.found task, tasks)
  | .found task, .start steady =>
    let task := { task with status := .Downloading }
    some (.downloading task (steady - 10 * 10 ^ 9), tasks.save task)
  | .downloading task lastProgressWrite, .progress bytes steady =>
    let (task, lastProgressWrite, tasks) := progressCallback tasks task lastProgressWrite bytes steady
    some (.downloading task lastProgressWrite, tasks)
  | .downloading task _, .download filePath => some (.returned task filePath, tasks.save task)
  | .downloading task _, .throw => some (.threw task, tasks)
  | .returned task filePath, .throw => if filePath = [] then none else some (.threw task, tasks)
  | .returned task filePath, .finish =>
    some (.ended, tasks.save { task with status := if filePath = [] then .Failed else .Finished })
  | _, _ => none

structure Job where
  id : Str
  req : CreateTaskRequest
  created : Time
  stage : Stage
  deriving DecidableEq

/-- The job occupies a thread of the pool. -/
def Job.Running (job : Job) : Prop :=
  match job.stage with
  | .begun | .found _ | .downloading _ _ | .returned _ _ => True
  | _ => False

instance (job : Job) : Decidable job.Running := by
  unfold Job.Running
  split <;> infer_instance

structure Service where
  tasks : TaskTable := .empty
  jobs : List Job := []
  taskCounter : ℤ := 0
  /-- The rows deleted by `removeOlderThan`. -/
  removed : List TaskRow := []

inductive Label where
  | createTask (now created : Time) (req : CreateTaskRequest)
  | detach (i : ℕ)
  | start (i : ℕ)
  | execute (i : ℕ) (act : Act)
  | cleanup (now : Time)

section
variable (config : DownloadConfig)

def createTask (s : Service) (now created : Time) (req : CreateTaskRequest) : Service :=
  let task := newTask config now created s.taskCounter req
  { s with
    tasks := s.tasks.save task
    jobs := s.jobs ++ [⟨task.id, req, created, .saved⟩]
    taskCounter := int32 (s.taskCounter + 1) }

def cleanupExpiredTasks (s : Service) (now : Time) : Service :=
  { s with
    tasks := s.tasks.removeOlderThan config.max_age now
    removed := s.removed ++ s.tasks.older config.max_age now }

/-- The `i`-th job moves from one stage to another. -/
def moveJob (s : Service) (i : ℕ) (src dst : Stage) : Service :=
  match s.jobs[i]? with
  | some job => if job.stage = src then { s with jobs := s.jobs.set i { job with stage := dst } } else s
  | none => s

def stepJob (s : Service) (i : ℕ) (act : Act) : Service :=
  match s.jobs[i]? with
  | some job =>
    match executeDownload s.tasks job.id job.stage act with
    | some (stage, tasks) => { s with tasks, jobs := s.jobs.set i { job with stage } }
    | none => s
  | none => s

def step (s : Service) : Label → Service
  | .createTask now created req => createTask config s now created req
  | .detach i => moveJob s i .saved .queued
  | .start i => if s.jobs.countP (·.Running) < 5 then moveJob s i .queued .begun else s
  | .execute i act => stepJob s i act
  | .cleanup now => cleanupExpiredTasks config s now

end

theorem cStr_taskId (now : Time) (taskCounter : ℤ) : cStr (taskId now taskCounter) = taskId now taskCounter := by
  have hlit : ∀ c ∈ lit "task_", c ≠ 0 := by decide +kernel
  have hsep : ∀ c ∈ lit "_", c ≠ 0 := by decide +kernel
  refine cStr_eq_self fun c hc => ?_
  rcases List.mem_append.1 hc with hc | hc
  · rcases List.mem_append.1 hc with hc | hc
    · rcases List.mem_append.1 hc with hc | hc
      · exact hlit c hc
      · exact decInt_ne_zero _ c hc
    · exact hsep c hc
  · exact decInt_ne_zero _ c hc

/-! ## What a step of a download does -/

/-- The row of the task, as long as the download has no outcome: its `created_at`. -/
def Stage.stamp (created : Time) : Stage → Option ℤ
  | .saved | .queued | .begun | .found _ => some created.seconds
  | .downloading task _ | .returned task _ | .threw task => some task.createdAt.seconds
  | .lost | .ended => none

def Job.stamp (job : Job) : Option ℤ := job.stage.stamp job.created

/-- The task has been accepted and not yet been looked up. -/
def Stage.waiting : Stage → Bool
  | .saved | .queued | .begun => true
  | _ => false

theorem Stage.stamp_of_waiting {stage : Stage} (created : Time) (h : stage.waiting = true) :
    stage.stamp created = some created.seconds := by
  cases stage <;> first | rfl | cases h

/-- The task a stage holds has the id of the job. -/
def Stage.Holds (id : Str) (stage : Stage) : Prop := ∀ task, stage.task? = some task → task.id = id

theorem holds_of_waiting {id : Str} {stage : Stage} (h : stage.waiting = true) : stage.Holds id := by
  have hnone : stage.task? = none := by
    cases stage <;> first | rfl | cases h
  intro task htask
  rw [hnone] at htask
  cases htask

theorem holds_task {id : Str} {stage : Stage} {task : Task} (htask : stage.task? = some task)
    (hid : task.id = id) : stage.Holds id := by
  intro task' htask'
  rw [htask] at htask'
  obtain rfl := Option.some.inj htask'
  exact hid

/-- A step of a download finds no task, or leaves the table and the stamp, or saves its task. -/
inductive Stepped (tasks : TaskTable) (id : Str) (created : Time) :
    Stage → Stage → TaskTable → Prop
  | lost {now} : tasks.findById id now = none → Stepped tasks id created .begun .lost tasks
  | kept {stage stage'} : stage'.stamp created = stage.stamp created →
      (stage'.waiting = true → stage.waiting = true) → stage' ≠ .lost → stage'.Holds id →
      Stepped tasks id created stage stage' tasks
  | saved {stage stage'} (task : Task) : task.id = id → stage.stamp created ≠ none →
      ((TaskRow.ofTask task).Unfinished → stage'.stamp created = some task.createdAt.seconds) →
      stage'.waiting = false → stage' ≠ .lost → stage'.Holds id →
      Stepped tasks id created stage stage' (tasks.save task)

/-- Only an unfinished download makes a step, and an unfinished one stays under its id. -/
theorem Stepped.stamp_ne {tasks tasks' : TaskTable} {id : Str} {created : Time} {stage stage' : Stage}
    (h : Stepped tasks id created stage stage' tasks') (hs : stage'.stamp created ≠ none) :
    stage.stamp created ≠ none := by
  cases h with
  | lost _ => nofun
  | kept hstamp => rwa [hstamp] at hs
  | saved _ _ hne => exact hne

theorem Stepped.holds {tasks tasks' : TaskTable} {id : Str} {created : Time} {stage stage' : Stage}
    (h : Stepped tasks id created stage stage' tasks') : stage'.Holds id := by
  cases h with
  | lost _ => nofun
  | kept _ _ _ hholds => exact hholds
  | saved _ _ _ _ _ _ hholds => exact hholds

/-- A step saves at most a task of the id. -/
theorem Stepped.tasks_cases {tasks tasks' : TaskTable} {id : Str} {created : Time} {stage stage' : Stage}
    (h : Stepped tasks id created stage stage' tasks') :
    tasks' = tasks ∨ ∃ task, task.id = id ∧ tasks' = tasks.save task := by
  cases h with
  | lost _ | kept _ _ _ _ => exact Or.inl rfl
  | saved task htask => exact Or.inr ⟨task, htask, rfl⟩

theorem executeDownload_stepped {tasks tasks' : TaskTable} {id : Str} {stage stage' : Stage} {act : Act}
    (created : Time) (hid : cStr id = id) (hstage : stage.Holds id)
    (h : executeDownload tasks id stage act = some (stage', tasks')) :
    Stepped tasks id created stage stage' tasks' := by
  unfold executeDownload at h
  split at h
  · next now =>
    split at h
    · next hnone =>
      obtain ⟨rfl, rfl⟩ := Prod.mk.inj (Option.some.inj h)
      exact .lost hnone
    · next task hfound =>
      obtain ⟨rfl, rfl⟩ := Prod.mk.inj (Option.some.inj h)
      exact .kept rfl nofun nofun (holds_task rfl ((TaskTable.id_of_findById hfound).trans hid))
  · next task steady =>
    obtain ⟨rfl, rfl⟩ := Prod.mk.inj (Option.some.inj h)
    have htask : task.id = id := hstage task rfl
    exact .saved _ htask nofun (fun _ => rfl) rfl nofun (holds_task rfl htask)
  · next task lastProgressWrite bytes steady =>
    have htask : task.id = id := hstage task rfl
    dsimp only [progressCallback] at h
    split_ifs at h
    · obtain ⟨rfl, rfl⟩ := Prod.mk.inj (Option.some.inj h)
      exact .saved _ htask nofun (fun _ => rfl) rfl nofun (holds_task rfl htask)
    · obtain ⟨rfl, rfl⟩ := Prod.mk.inj (Option.some.inj h)
      exact .kept rfl nofun nofun (holds_task rfl htask)
  · next task lastProgressWrite filePath =>
    obtain ⟨rfl, rfl⟩ := Prod.mk.inj (Option.some.inj h)
    have htask : task.id = id := hstage task rfl
    exact .saved _ htask nofun (fun _ => rfl) rfl nofun (holds_task rfl htask)
  · next task lastProgressWrite =>
    obtain ⟨rfl, rfl⟩ := Prod.mk.inj (Option.some.inj h)
    exact .kept rfl nofun nofun (holds_task rfl (hstage task rfl))
  · next task filePath =>
    split_ifs at h
    obtain ⟨rfl, rfl⟩ := Prod.mk.inj (Option.some.inj h)
    exact .kept rfl nofun nofun (holds_task rfl (hstage task rfl))
  · next task filePath =>
    obtain ⟨rfl, rfl⟩ := Prod.mk.inj (Option.some.inj h)
    refine .saved _ (hstage task rfl) nofun ?_ rfl nofun nofun
    -- a row with the outcome is not one of an unfinished task
    rintro (hs | hs) <;> simp only [TaskRow.ofTask] at hs <;> split_ifs at hs
  · cases h

end Download

end NarMusic
