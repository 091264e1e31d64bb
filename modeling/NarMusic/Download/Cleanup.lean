/-
  Cleanup and unfinished downloads.

  `removeOlderThan` looks at `created_at` alone, which is the time the task was
  created and, from the first `update` on, the time `executeDownload` read it back.
  So a run in which no unfinished download gets older than `max_age` (`Recent`)
  removes no unfinished task and executes every download it starts
  (`recent_kept`); one that waits longer for a thread is removed and lost
  (`waiting_lost`).
-/
import NarMusic.Lib.Slots
import NarMusic.Download.Queue

namespace NarMusic.Download

open Cxx Slots

/-- No unfinished task has been removed, and no download has missed its task. -/
def Service.Kept (s : Service) : Prop :=
  (∀ row ∈ s.removed, ¬ row.Unfinished) ∧ ∀ job ∈ s.jobs, job.stage ≠ .lost

/-- A cleanup finds every unfinished download at most `max_age` old, and a new task has the id of
    no unfinished one. -/
def Service.Recent (config : DownloadConfig) (s : Service) : Label → Prop
  | .createTask now _ _ => ∀ job ∈ s.jobs, job.stamp ≠ none → job.id ≠ taskId now s.taskCounter
  | .cleanup now => 0 < config.max_age →
      ∀ job ∈ s.jobs, ∀ stamp ∈ job.stamp, now.seconds - config.max_age ≤ stamp
  | _ => True

instance (config : DownloadConfig) (s : Service) (l : Label) : Decidable (s.Recent config l) := by
  cases l <;> unfold Service.Recent <;> infer_instance

/-- Every unfinished row belongs to an unfinished job, and every waiting job has its row. -/
structure Service.Tracked (s : Service) : Prop where
  unfinished : ∀ row ∈ s.tasks.rows, row.Unfinished →
    ∃ job ∈ s.jobs, job.id = row.id ∧ job.stamp = some row.createdAt
  waiting : ∀ job ∈ s.jobs, job.stage.waiting = true →
    ∃ row ∈ s.tasks.rows, row.id = job.id ∧ row.Unfinished
  distinct : ∀ (i j : ℕ) (a b : Job), s.jobs[i]? = some a → s.jobs[j]? = some b →
    a.stamp ≠ none → b.stamp ≠ none → a.id = b.id → i = j
  plain : ∀ job ∈ s.jobs, cStr job.id = job.id ∧ job.stage.Holds job.id
  kept : s.Kept

/-! ## One step of a job -/

namespace Service.Tracked

variable {s : Service} {i : ℕ} {job : Job} {stage' : Stage} {tasks' : TaskTable}

/-- The jobs are as distinct as before. -/
theorem distinct_set (h : s.Tracked) (hi : s.jobs[i]? = some job)
    (hstamp : Job.stamp { job with stage := stage' } ≠ none → job.stamp ≠ none) :
    ∀ (j k : ℕ) (a b : Job), (s.jobs.set i { job with stage := stage' })[j]? = some a →
      (s.jobs.set i { job with stage := stage' })[k]? = some b →
      a.stamp ≠ none → b.stamp ≠ none → a.id = b.id → j = k := by
  -- a job of the new list comes from one of the old list with the same id
  have hold : ∀ (j : ℕ) (a : Job), (s.jobs.set i { job with stage := stage' })[j]? = some a → a.stamp ≠ none →
      ∃ a', s.jobs[j]? = some a' ∧ a'.id = a.id ∧ a'.stamp ≠ none := by
    intro j a hj ha
    rcases getElem?_set_cases hj with ⟨rfl, rfl⟩ | ⟨-, hj⟩
    · exact ⟨job, hi, rfl, hstamp ha⟩
    · exact ⟨a, hj, rfl, ha⟩
  intro j k a b hj hk ha hb hab
  obtain ⟨a', hj', haid, ha'⟩ := hold j a hj ha
  obtain ⟨b', hk', hbid, hb'⟩ := hold k b hk hb
  exact h.distinct j k a' b' hj' hk' ha' hb' (by rw [haid, hbid, hab])

theorem plain_set (h : s.Tracked) (hi : s.jobs[i]? = some job) (hholds : stage'.Holds job.id) :
    ∀ b ∈ s.jobs.set i { job with stage := stage' }, cStr b.id = b.id ∧ b.stage.Holds b.id := by
  intro b hb
  rcases mem_set_cases hb with rfl | ⟨j, -, hj⟩
  · exact ⟨(h.plain job (List.mem_of_getElem? hi)).1, hholds⟩
  · exact h.plain b (List.mem_of_getElem? hj)

theorem kept_set (h : s.Tracked) (hne : stage' ≠ .lost) :
    ∀ b ∈ s.jobs.set i { job with stage := stage' }, b.stage ≠ .lost := by
  intro b hb
  rcases mem_set_cases hb with rfl | ⟨j, -, hj⟩
  · exact hne
  · exact h.kept.2 b (List.mem_of_getElem? hj)

theorem stepped (h : s.Tracked) (hi : s.jobs[i]? = some job)
    (hstep : Stepped s.tasks job.id job.created job.stage stage' tasks') :
    ({ s with tasks := tasks', jobs := s.jobs.set i { job with stage := stage' } } : Service).Tracked := by
  have hmem : job ∈ s.jobs := List.mem_of_getElem? hi
  have hid := (h.plain job hmem).1
  have hdistinct := h.distinct_set hi hstep.stamp_ne
  generalize hst : job.stage = st at hstep
  cases hstep with
  | lost hnone =>
    obtain ⟨row, hrow, hrowid, -⟩ := h.waiting job hmem (by rw [hst]; rfl)
    exact absurd hnone (TaskTable.findById_isSome _ hrow (by rw [hrowid, hid]))
  | kept hsame hwait hne hholds' =>
    rw [← hst] at hsame hwait
    refine ⟨?_, ?_, hdistinct, h.plain_set hi hholds', h.kept.1, h.kept_set hne⟩
    · intro row hrow hunf
      obtain ⟨b, hb, hbid, hbstamp⟩ := h.unfinished row hrow hunf
      obtain ⟨j, hj⟩ := List.mem_iff_getElem?.1 hb
      by_cases hji : j = i
      · subst hji
        obtain rfl : job = b := Option.some.inj (hi.symm.trans hj)
        exact ⟨_, mem_set_self hi, hbid, hsame.trans hbstamp⟩
      · exact ⟨b, mem_set_of_ne hji hj, hbid, hbstamp⟩
    · intro b hb hbwait
      rcases mem_set_cases hb with rfl | ⟨j, -, hj⟩
      · exact h.waiting job hmem (hwait hbwait)
      · exact h.waiting b (List.mem_of_getElem? hj) hbwait
  | saved task htask hopen hunf hwait hne hholds' =>
    rw [← hst] at hopen
    have htaskid : cStr task.id = job.id := by rw [htask, hid]
    refine ⟨?_, ?_, hdistinct, h.plain_set hi hholds', h.kept.1, h.kept_set hne⟩
    · intro row hrow hrowunf
      rcases TaskTable.mem_save.1 hrow with ⟨hrow, hrowid⟩ | rfl
      · obtain ⟨b, hb, hbid, hbstamp⟩ := h.unfinished row hrow hrowunf
        obtain ⟨j, hj⟩ := List.mem_iff_getElem?.1 hb
        have hji : j ≠ i := by
          rintro rfl
          obtain rfl : job = b := Option.some.inj (hi.symm.trans hj)
          exact hrowid (by rw [← hbid, htaskid])
        exact ⟨b, mem_set_of_ne hji hj, hbid, hbstamp⟩
      · exact ⟨_, mem_set_self hi, htaskid.symm, hunf hrowunf⟩
    · intro b hb hbwait
      rcases mem_set_cases hb with rfl | ⟨j, hji, hj⟩
      · exact absurd hbwait (by simp [hwait])
      · obtain ⟨row, hrow, hrowid, hrowunf⟩ := h.waiting b (List.mem_of_getElem? hj) hbwait
        have hbopen : b.stamp ≠ none := by simp [Job.stamp, Stage.stamp_of_waiting _ hbwait]
        refine ⟨row, TaskTable.mem_save.2 (Or.inl ⟨hrow, fun heq => hji ?_⟩), hrowid, hrowunf⟩
        exact h.distinct j i b job hj hi hbopen hopen (by rw [← hrowid, heq, htaskid])

theorem moveJob (h : s.Tracked) {src dst : Stage} (hsrc : src.waiting = true) (hdst : dst.waiting = true) :
    (moveJob s i src dst).Tracked := by
  unfold Download.moveJob
  split
  · next job hi =>
    split_ifs with hstage
    · refine h.stepped hi (.kept ?_ (fun _ => by rw [hstage, hsrc]) ?_ (holds_of_waiting hdst))
      · rw [hstage, Stage.stamp_of_waiting _ hdst, Stage.stamp_of_waiting _ hsrc]
      · rintro rfl
        cases hdst
    · exact h
  · exact h

theorem stepJob (h : s.Tracked) (act : Act) : (stepJob s i act).Tracked := by
  unfold Download.stepJob
  split
  · next job hi =>
    obtain ⟨hid, hholds⟩ := h.plain job (List.mem_of_getElem? hi)
    split
    · next stage tasks hexec => exact h.stepped hi (executeDownload_stepped job.created hid hholds hexec)
    · exact h
  · exact h

theorem createTask (h : s.Tracked) {config : DownloadConfig} {now created : Time} {req : CreateTaskRequest}
    (hfresh : ∀ job ∈ s.jobs, job.stamp ≠ none → job.id ≠ taskId now s.taskCounter) :
    (createTask config s now created req).Tracked := by
  have hid : cStr (newTask config now created s.taskCounter req).id = taskId now s.taskCounter :=
    cStr_taskId now s.taskCounter
  refine ⟨?_, ?_, ?_, ?_, h.kept.1, ?_⟩
  · intro row hrow hunf
    rcases TaskTable.mem_save.1 hrow with ⟨hrow, -⟩ | rfl
    · obtain ⟨job, hjob, hjobid, hstamp⟩ := h.unfinished row hrow hunf
      exact ⟨job, List.mem_append_left _ hjob, hjobid, hstamp⟩
    · exact ⟨_, List.mem_append_right _ List.mem_cons_self, hid.symm, rfl⟩
  · intro job hjob hwait
    rcases List.mem_append.1 hjob with hjob | hjob
    · obtain ⟨row, hrow, hrowid, hunf⟩ := h.waiting job hjob hwait
      refine ⟨row, TaskTable.mem_save.2 (Or.inl ⟨hrow, ?_⟩), hrowid, hunf⟩
      rw [hrowid, hid]
      exact hfresh job hjob (by simp [Job.stamp, Stage.stamp_of_waiting _ hwait])
    · obtain rfl := List.mem_singleton.1 hjob
      exact ⟨_, TaskTable.mem_save.2 (Or.inr rfl), hid, Or.inl rfl⟩
  · -- the new job is the last, and no unfinished one has its id
    intro j k a b hj hk ha hb hab
    rcases getElem?_append_cases hj with hj | ⟨rfl, rfl⟩ <;>
      rcases getElem?_append_cases hk with hk | ⟨rfl, rfl⟩
    · exact h.distinct j k a b hj hk ha hb hab
    · exact absurd hab (hfresh a (List.mem_of_getElem? hj) ha)
    · exact absurd hab.symm (hfresh b (List.mem_of_getElem? hk) hb)
    · rfl
  · intro job hjob
    rcases List.mem_append.1 hjob with hjob | hjob
    · exact h.plain job hjob
    · obtain rfl := List.mem_singleton.1 hjob
      exact ⟨hid, nofun⟩
  · intro job hjob
    rcases List.mem_append.1 hjob with hjob | hjob
    · exact h.kept.2 job hjob
    · obtain rfl := List.mem_singleton.1 hjob
      nofun

theorem cleanup (h : s.Tracked) {config : DownloadConfig} {now : Time}
    (hrecent : s.Recent config (.cleanup now)) : (cleanupExpiredTasks config s now).Tracked := by
  -- an unfinished row is not among the rows that go
  have holder : ∀ row ∈ s.tasks.rows, row.Unfinished → row ∉ s.tasks.older config.max_age now := by
    intro row hrow hunf hold
    obtain ⟨job, hjob, -, hstamp⟩ := h.unfinished row hrow hunf
    unfold TaskTable.older at hold
    split_ifs at hold with hage
    · cases hold
    · have hlt := (of_decide_eq_true (List.mem_filter.1 hold).2).1
      have := hrecent (by omega) job hjob _ hstamp
      omega
  refine ⟨?_, ?_, h.distinct, h.plain, ?_, h.kept.2⟩
  · intro row hrow hunf
    obtain ⟨old, hold, hid, hstatus, hcreated⟩ := TaskTable.of_mem_removeOlderThan hrow
    rw [← hid, ← hcreated]
    exact h.unfinished old hold (by rwa [TaskRow.Unfinished, hstatus])
  · intro job hjob hwait
    obtain ⟨row, hrow, hid, hunf⟩ := h.waiting job hjob hwait
    obtain ⟨new, hnew, hnewid, hstatus⟩ := TaskTable.mem_removeOlderThan hrow (holder row hrow hunf)
    exact ⟨new, hnew, hnewid.trans hid, by rwa [TaskRow.Unfinished, hstatus]⟩
  · intro row hrow hunf
    rcases List.mem_append.1 hrow with hrow | hrow
    · exact h.kept.1 row hrow hunf
    · have hmem : row ∈ s.tasks.rows := by
        unfold TaskTable.older at hrow
        split_ifs at hrow
        · cases hrow
        · exact (List.mem_filter.1 hrow).1
      exact holder row hmem hunf hrow

theorem step (h : s.Tracked) {config : DownloadConfig} {l : Label} (hl : s.Recent config l) :
    (step config s l).Tracked := by
  cases l with
  | createTask now created req => exact h.createTask hl
  | detach i => exact h.moveJob rfl rfl
  | start i =>
    unfold Download.step
    dsimp only
    split_ifs
    · exact h.moveJob rfl rfl
    · exact h
  | execute i act => exact h.stepJob act
  | cleanup now => exact h.cleanup hl

end Service.Tracked

theorem start_tracked : (({} : Service)).Tracked := by
  refine ⟨?_, ?_, ?_, ?_, ?_, ?_⟩ <;> simp [TaskTable.empty]

/-- **Cleanup keeps unfinished work** in every run in which no unfinished download gets older
    than `max_age`: no unfinished task is removed, and every download that is started finds its
    task. -/
theorem recent_kept (config : DownloadConfig) (run : List Label)
    (h : Run.Each (step config) (·.Recent config) {} run) : (Run.exec (step config) {} run).Kept :=
  (h.inv (I := Service.Tracked) (fun _ _ hs hl => hs.step hl) start_tracked).kept

/-! ## Six downloads and five threads -/

/-- Six tasks are created and five of them started; the cleanup comes after `t` nanoseconds, then
    the first download fails and the sixth is started. -/
def sixDownloads (t : Time) : List Label :=
  (List.replicate 6 (.createTask 0 0 ⟨lit "url", lit "song", [], 0⟩)) ++
    (List.range 6).map .detach ++ (List.range 5).map .start ++
    (List.range 5).flatMap (fun i => [.execute i (.findById 0), .execute i (.start 0)]) ++
    [.cleanup t, .execute 0 (.download []), .execute 0 .finish, .start 5, .execute 5 (.findById t)]

/-- A minute later nothing is too old. -/
theorem sixDownloads_kept :
    (Run.exec (step { max_age := 60 }) {} (sixDownloads (60 * 10 ^ 9))).Kept :=
  recent_kept { max_age := 60 } _ (by decide +kernel)

/-- A second after that, the task that waits for a thread is removed, and then not found. -/
theorem waiting_lost :
    ¬ (∀ row ∈ (Run.exec (step { max_age := 60 }) {} (sixDownloads (61 * 10 ^ 9))).removed,
        ¬ row.Unfinished) ∧
      ¬ ∀ job ∈ (Run.exec (step { max_age := 60 }) {} (sixDownloads (61 * 10 ^ 9))).jobs,
        job.stage ≠ .lost := by
  decide +kernel

end NarMusic.Download
