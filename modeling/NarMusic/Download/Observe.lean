/-
  The statuses of a task that a client sees.

  A client asks for one task between any two steps of the service.  As long as one
  job alone executes the task, its stage fixes the status of the row (`Current`), and
  each step leaves that status or moves it on (`Current.step`).  An update puts a
  removed row back, but with the status of the stage.  So the statuses that are seen
  never go back (`seen_ordered`).
-/
import NarMusic.Download.Cleanup

namespace NarMusic.Download

open Cxx Slots

/-- A status that may be seen after another. -/
def Follows : TaskStatus → TaskStatus → Prop
  | .Pending, _ => True
  | .Downloading, status => status ≠ .Pending
  | .Finished, status => status = .Finished
  | .Failed, status => status = .Failed

instance Follows.decidable : ∀ a b, Decidable (Follows a b)
  | .Pending, _ => .isTrue trivial
  | .Downloading, status => inferInstanceAs (Decidable (status ≠ .Pending))
  | .Finished, status => inferInstanceAs (Decidable (status = .Finished))
  | .Failed, status => inferInstanceAs (Decidable (status = .Failed))

theorem Follows.refl (a : TaskStatus) : Follows a a := by
  cases a <;> decide

theorem Follows.trans {a b c : TaskStatus} (hab : Follows a b) (hbc : Follows b c) : Follows a c := by
  cases a with
  | Pending => trivial
  | Downloading =>
    rintro rfl
    cases b with
    | Pending => exact hab rfl
    | Downloading => exact hbc rfl
    | Finished | Failed => cases hbc
  | Finished | Failed =>
    cases hab
    exact hbc

/-- A step of the service, or a call of `getTaskStatus` for the task that is watched. -/
inductive Event where
  | service (l : Label)
  | getTaskStatus (now : Time)

/-- The service, and the statuses that have been seen. -/
structure Watch where
  service : Service := {}
  seen : List TaskStatus := []

/-- An answer that finds no task is ignored. -/
def Watch.step (config : DownloadConfig) (id : Str) (w : Watch) : Event → Watch
  | .service l => { w with service := Download.step config w.service l }
  | .getTaskStatus now =>
    match w.service.tasks.findById id now with
    | some task => { w with seen := w.seen ++ [task.status] }
    | none => w

/-- `createTask` makes the id once. -/
def Watch.Once (id : Str) (w : Watch) : Event → Prop
  | .service (.createTask now _ _) =>
    taskId now w.service.taskCounter = id → ∀ job ∈ w.service.jobs, job.id ≠ id
  | _ => True

instance Watch.Once.decidable (id : Str) (w : Watch) : ∀ e, Decidable (w.Once id e)
  | .service (.createTask now _ _) =>
    inferInstanceAs (Decidable (taskId now w.service.taskCounter = id → ∀ job ∈ w.service.jobs, job.id ≠ id))
  | .service (.detach _) | .service (.start _) | .service (.execute _ _) | .service (.cleanup _)
  | .getTaskStatus _ => .isTrue trivial

/-! ## The status of a stage -/

/-- The status of the row of a job, if the row is there. -/
def Stage.Shows (status : TaskStatus) : Stage → Prop
  | .saved | .queued | .begun | .found _ => status = .Pending
  | .downloading task _ | .returned task _ => status = .Downloading ∧ task.status = .Downloading
  | .threw _ | .lost | .ended => True

/-- A step of a download leaves the table and its status, or saves its task with the next one. -/
theorem executeDownload_shows {tasks tasks' : TaskTable} {id : Str} {stage stage' : Stage} {act : Act}
    {status : TaskStatus} (hstage : stage.Shows status)
    (h : executeDownload tasks id stage act = some (stage', tasks')) :
    (tasks' = tasks ∧ stage'.Shows status) ∨
      ∃ task, stage.task?.map (·.id) = some task.id ∧ tasks' = tasks.save task ∧
        Follows status task.status ∧ stage'.Shows task.status := by
  unfold executeDownload at h
  split at h
  · split at h
    · obtain ⟨rfl, rfl⟩ := Prod.mk.inj (Option.some.inj h)
      exact Or.inl ⟨rfl, trivial⟩
    · obtain ⟨rfl, rfl⟩ := Prod.mk.inj (Option.some.inj h)
      exact Or.inl ⟨rfl, hstage⟩
  · next task steady =>
    obtain ⟨rfl, rfl⟩ := Prod.mk.inj (Option.some.inj h)
    obtain rfl : status = .Pending := hstage
    exact Or.inr ⟨{ task with status := .Downloading }, rfl, rfl, trivial, rfl, rfl⟩
  · next task lastProgressWrite bytes steady =>
    obtain ⟨rfl, htask⟩ := hstage
    dsimp only [progressCallback] at h
    split_ifs at h
    · obtain ⟨rfl, rfl⟩ := Prod.mk.inj (Option.some.inj h)
      refine Or.inr ⟨{ task with downloadedBytes := bytes }, rfl, rfl, ?_, htask, htask⟩
      rw [htask]
      exact Follows.refl _
    · obtain ⟨rfl, rfl⟩ := Prod.mk.inj (Option.some.inj h)
      exact Or.inl ⟨rfl, rfl, htask⟩
  · next task lastProgressWrite filePath =>
    obtain ⟨rfl, rfl⟩ := Prod.mk.inj (Option.some.inj h)
    obtain ⟨rfl, htask⟩ := hstage
    refine Or.inr ⟨task, rfl, rfl, ?_, htask, htask⟩
    rw [htask]
    exact Follows.refl _
  · obtain ⟨rfl, rfl⟩ := Prod.mk.inj (Option.some.inj h)
    exact Or.inl ⟨rfl, trivial⟩
  · split_ifs at h
    obtain ⟨rfl, rfl⟩ := Prod.mk.inj (Option.some.inj h)
    exact Or.inl ⟨rfl, trivial⟩
  · next task filePath =>
    obtain ⟨rfl, rfl⟩ := Prod.mk.inj (Option.some.inj h)
    obtain ⟨rfl, -⟩ := hstage
    refine Or.inr ⟨{ task with status := if filePath = [] then .Failed else .Finished }, rfl, rfl, ?_, trivial⟩
    -- the outcome follows `Downloading`
    show (if filePath = [] then TaskStatus.Failed else .Finished) ≠ .Pending
    split_ifs <;> nofun
  · cases h

/-! ## The status of the row -/

/-- The row of the task has the status `status`, and so has its one job. -/
structure Service.Current (id : Str) (s : Service) (status : TaskStatus) : Prop where
  row : ∀ row ∈ s.tasks.rows, row.id = id → row.status = status
  stage : ∀ job ∈ s.jobs, job.id = id → job.stage.Shows status
  single : ∀ (i j : ℕ) (a b : Job), s.jobs[i]? = some a → s.jobs[j]? = some b →
    a.id = id → b.id = id → i = j
  unborn : (∀ job ∈ s.jobs, job.id ≠ id) → status = .Pending
  plain : ∀ job ∈ s.jobs, cStr job.id = job.id ∧ job.stage.Holds job.id

namespace Service.Current

variable {id : Str} {s : Service} {status : TaskStatus} {i : ℕ} {job : Job} {stage' : Stage}
  {tasks' : TaskTable}

/-- A job steps to a stage that shows the status of its row. -/
theorem stepped (h : s.Current id status) (hi : s.jobs[i]? = some job) {status' : TaskStatus}
    (hrow : ∀ row ∈ tasks'.rows, row.id = id → row.status = status')
    (hshows : job.id = id → stage'.Shows status') (hsame : job.id ≠ id → status' = status)
    (hholds : stage'.Holds job.id) :
    ({ s with tasks := tasks', jobs := s.jobs.set i { job with stage := stage' } } : Service).Current id status' := by
  have hmem : job ∈ s.jobs := List.mem_of_getElem? hi
  refine ⟨hrow, ?_, ?_, ?_, ?_⟩
  · intro b hb hbid
    rcases mem_set_cases hb with rfl | ⟨j, hji, hj⟩
    · exact hshows hbid
    · have hne : job.id ≠ id := fun hid => hji (h.single j i b job hj hi hbid hid)
      rw [hsame hne]
      exact h.stage b (List.mem_of_getElem? hj) hbid
  · have hold : ∀ (j : ℕ) (a : Job), (s.jobs.set i { job with stage := stage' })[j]? = some a →
        a.id = id → ∃ a', s.jobs[j]? = some a' ∧ a'.id = id := by
      intro j a hj ha
      rcases getElem?_set_cases hj with ⟨rfl, rfl⟩ | ⟨-, hj⟩
      · exact ⟨job, hi, ha⟩
      · exact ⟨a, hj, ha⟩
    intro j k a b hj hk ha hb
    obtain ⟨a', hj', ha'⟩ := hold j a hj ha
    obtain ⟨b', hk', hb'⟩ := hold k b hk hb
    exact h.single j k a' b' hj' hk' ha' hb'
  · intro hnone
    have hne : job.id ≠ id := hnone { job with stage := stage' } (mem_set_self hi)
    rw [hsame hne]
    refine h.unborn fun b hb hbid => ?_
    obtain ⟨j, hj⟩ := List.mem_iff_getElem?.1 hb
    by_cases hji : j = i
    · subst hji
      obtain rfl : job = b := Option.some.inj (hi.symm.trans hj)
      exact hne hbid
    · exact hnone b (mem_set_of_ne hji hj) hbid
  · intro b hb
    rcases mem_set_cases hb with rfl | ⟨j, -, hj⟩
    · exact ⟨(h.plain job hmem).1, hholds⟩
    · exact h.plain b (List.mem_of_getElem? hj)

theorem moveJob (h : s.Current id status) {src dst : Stage} (hdst : dst.waiting = true)
    (hshows : src.Shows status → dst.Shows status) : (moveJob s i src dst).Current id status := by
  unfold Download.moveJob
  split
  · next job hi =>
    split_ifs with hstage
    · refine h.stepped hi h.row (fun hid => hshows ?_) (fun _ => rfl) (holds_of_waiting hdst)
      exact hstage ▸ h.stage job (List.mem_of_getElem? hi) hid
    · exact h
  · exact h

/-- Saving a task of another id leaves the row. -/
theorem row_save (h : s.Current id status) {task : Task} (hne : cStr task.id ≠ id) :
    ∀ row ∈ (s.tasks.save task).rows, row.id = id → row.status = status := by
  intro row hrow hid
  rcases TaskTable.mem_save.1 hrow with ⟨hrow, -⟩ | rfl
  · exact h.row row hrow hid
  · exact absurd hid hne

/-- Saving a task of the id makes its status that of the row. -/
theorem row_save_self {tasks : TaskTable} {task : Task} (hid : cStr task.id = id) :
    ∀ row ∈ (tasks.save task).rows, row.id = id → row.status = task.status := by
  intro row hrow hrowid
  rw [TaskTable.eq_of_mem_save hrow (hrowid.trans hid.symm)]
  rfl

theorem stepJob (h : s.Current id status) (act : Act) :
    ∃ status', Follows status status' ∧ (stepJob s i act).Current id status' := by
  unfold Download.stepJob
  split
  · next job hi =>
    obtain ⟨hplain, hholds⟩ := h.plain job (List.mem_of_getElem? hi)
    split
    · next stage tasks hexec =>
      have hstepped := executeDownload_stepped job.created hplain hholds hexec
      by_cases hid : job.id = id
      · rcases executeDownload_shows (h.stage job (List.mem_of_getElem? hi) hid) hexec with
          ⟨rfl, hshows⟩ | ⟨task, htask, rfl, hfollows, hshows⟩
        · exact ⟨status, Follows.refl _,
            h.stepped hi h.row (fun _ => hshows) (fun hne => absurd hid hne) hstepped.holds⟩
        · obtain ⟨held, hheld, hheldid⟩ := Option.map_eq_some_iff.1 htask
          have htaskid : cStr task.id = id := by rw [← hheldid, hholds held hheld, hplain, hid]
          exact ⟨task.status, hfollows,
            h.stepped hi (row_save_self htaskid) (fun _ => hshows) (fun hne => absurd hid hne) hstepped.holds⟩
      · have hrow : ∀ row ∈ tasks.rows, row.id = id → row.status = status := by
          rcases hstepped.tasks_cases with rfl | ⟨task, htask, rfl⟩
          · exact h.row
          · refine h.row_save ?_
            rw [htask, hplain]
            exact hid
        exact ⟨status, Follows.refl _,
          h.stepped hi hrow (fun heq => absurd heq hid) (fun _ => rfl) hstepped.holds⟩
    · exact ⟨status, Follows.refl _, h⟩
  · exact ⟨status, Follows.refl _, h⟩

theorem createTask (h : s.Current id status) {config : DownloadConfig} {now created : Time}
    {req : CreateTaskRequest}
    (honce : taskId now s.taskCounter = id → ∀ job ∈ s.jobs, job.id ≠ id) :
    (createTask config s now created req).Current id status := by
  have hplain := cStr_taskId now s.taskCounter
  by_cases hid : taskId now s.taskCounter = id
  · -- no job has the id yet, so the status is still `Pending`
    have hnone := honce hid
    obtain rfl := h.unborn hnone
    refine ⟨row_save_self (hplain.trans hid), ?_, ?_, fun _ => rfl, ?_⟩
    · intro job hjob hjobid
      rcases mem_append_cases hjob with hjob | rfl
      · exact absurd hjobid (hnone job hjob)
      · rfl
    · intro j k a b hj hk ha hb
      rcases getElem?_append_cases hj with hj | ⟨rfl, -⟩
      · exact absurd ha (hnone a (List.mem_of_getElem? hj))
      · rcases getElem?_append_cases hk with hk | ⟨rfl, -⟩
        · exact absurd hb (hnone b (List.mem_of_getElem? hk))
        · rfl
    · intro job hjob
      rcases mem_append_cases hjob with hjob | rfl
      · exact h.plain job hjob
      · exact ⟨hplain, nofun⟩
  · have hrow : ∀ row ∈ (s.tasks.save (newTask config now created s.taskCounter req)).rows,
        row.id = id → row.status = status := by
      refine h.row_save fun heq => hid ?_
      exact hplain.symm.trans heq
    refine ⟨hrow, ?_, ?_, ?_, ?_⟩
    · intro job hjob hjobid
      rcases mem_append_cases hjob with hjob | rfl
      · exact h.stage job hjob hjobid
      · exact absurd hjobid hid
    · intro j k a b hj hk ha hb
      rcases getElem?_append_cases hj with hj | ⟨-, rfl⟩
      · rcases getElem?_append_cases hk with hk | ⟨-, rfl⟩
        · exact h.single j k a b hj hk ha hb
        · exact absurd hb hid
      · exact absurd ha hid
    · intro hnone
      exact h.unborn fun job hjob => hnone job (List.mem_append_left _ hjob)
    · intro job hjob
      rcases mem_append_cases hjob with hjob | rfl
      · exact h.plain job hjob
      · exact ⟨hplain, nofun⟩

theorem cleanup (h : s.Current id status) (config : DownloadConfig) (now : Time) :
    (cleanupExpiredTasks config s now).Current id status := by
  refine ⟨?_, h.stage, h.single, h.unborn, h.plain⟩
  intro row hrow hid
  obtain ⟨old, hold, holdid, hstatus, -⟩ := TaskTable.of_mem_removeOlderThan hrow
  exact hstatus ▸ h.row old hold (holdid.trans hid)

theorem step (h : s.Current id status) (config : DownloadConfig) (l : Label)
    (honce : ∀ now created req, l = .createTask now created req →
      taskId now s.taskCounter = id → ∀ job ∈ s.jobs, job.id ≠ id) :
    ∃ status', Follows status status' ∧ (step config s l).Current id status' := by
  cases l with
  | createTask now created req =>
    exact ⟨status, Follows.refl _, h.createTask (honce now created req rfl)⟩
  | detach i => exact ⟨status, Follows.refl _, h.moveJob rfl fun hshows => hshows⟩
  | start i =>
    unfold Download.step
    dsimp only
    split_ifs
    · exact ⟨status, Follows.refl _, h.moveJob rfl fun hshows => hshows⟩
    · exact ⟨status, Follows.refl _, h⟩
  | execute i act => exact h.stepJob act
  | cleanup now => exact ⟨status, Follows.refl _, h.cleanup config now⟩

end Service.Current

/-! ## What is seen -/

/-- The row has a status that follows all that have been seen. -/
def Watch.Ordered (id : Str) (w : Watch) : Prop :=
  w.seen.Pairwise Follows ∧
    ∃ status, w.service.Current id status ∧ ∀ old ∈ w.seen, Follows old status

theorem Watch.Ordered.step {config : DownloadConfig} {id : Str} {w : Watch} {e : Event}
    (h : w.Ordered (cStr id)) (honce : w.Once (cStr id) e) : (w.step config id e).Ordered (cStr id) := by
  obtain ⟨hseen, status, hcurrent, hold⟩ := h
  cases e with
  | service l =>
    have hlabel : ∀ now created req, l = .createTask now created req →
        taskId now w.service.taskCounter = cStr id → ∀ job ∈ w.service.jobs, job.id ≠ cStr id := by
      rintro now created req rfl
      exact honce
    obtain ⟨status', hfollows, hcurrent'⟩ := hcurrent.step config l hlabel
    exact ⟨hseen, status', hcurrent', fun old hmem => (hold old hmem).trans hfollows⟩
  | getTaskStatus now =>
    unfold Watch.step
    dsimp only
    split
    · next task hfound =>
      obtain ⟨row, hrow, rfl⟩ := Option.map_eq_some_iff.1 hfound
      have hid := List.find?_some hrow
      have hstatus : row.status = status :=
        hcurrent.row row (List.mem_of_find?_eq_some hrow) (of_decide_eq_true hid)
      obtain rfl := hstatus
      refine ⟨List.pairwise_append.2 ⟨hseen, List.pairwise_singleton _ _, ?_⟩, row.status, hcurrent, ?_⟩
      · intro old hmem new hnew
        obtain rfl := List.mem_singleton.1 hnew
        exact hold old hmem
      · intro old hmem
        rcases List.mem_append.1 hmem with hmem | hmem
        · exact hold old hmem
        · obtain rfl := List.mem_singleton.1 hmem
          exact Follows.refl _
    · exact ⟨hseen, status, hcurrent, hold⟩

theorem start_ordered (id : Str) : ({} : Watch).Ordered id := by
  refine ⟨List.Pairwise.nil, .Pending, ⟨?_, ?_, ?_, fun _ => rfl, ?_⟩, ?_⟩ <;> simp [TaskTable.empty]

/-- **Statuses never go back.**  In every run that creates the task once, the statuses seen for its
    id are in the order `Pending`, `Downloading` and one outcome. -/
theorem seen_ordered (config : DownloadConfig) (id : Str) (run : List Event)
    (h : Run.Each (Watch.step config id) (Watch.Once (cStr id)) {} run) :
    (Run.exec (Watch.step config id) {} run).seen.Pairwise Follows :=
  (h.inv (I := Watch.Ordered (cStr id)) (fun _ _ hw honce => hw.step honce) (start_ordered _)).1

/-- A download whose row is removed before it fails, with a query after each step. -/
def removedFailing : List Event :=
  ([.createTask 0 0 ⟨lit "url", lit "song", [], 0⟩, .detach 0, .start 0, .execute 0 (.findById 0),
      .execute 0 (.start 0), .cleanup (10 ^ 12), .execute 0 (.progress 7 0), .execute 0 (.download []),
      .execute 0 .finish] : List Label).flatMap fun l => [.service l, .getTaskStatus 0]

theorem removedFailing_ordered :
    (Run.exec (Watch.step {} (lit "task_0_0")) {} removedFailing).seen.Pairwise Follows :=
  seen_ordered {} _ removedFailing (by decide +kernel)

end NarMusic.Download
