/-
  The ids and the file paths that `createTask` makes up.

  An id is a millisecond and the counter, a path a file name and a millisecond.  Both
  texts can be read back (`taskId_inj`, `taskFilePath_inj`), so two tasks meet in an
  id when the counter has come round within the millisecond, and in a path when they
  have the same file name in the same millisecond (`distinct_iff`).  The counter is
  not in the path.
-/
import NarMusic.Lib.Slots
import NarMusic.Download.Queue

namespace NarMusic.Download

open Cxx Slots

/-- A call of `createTask`: its two readings of the clock and the request. -/
structure Call where
  now : Time
  created : Time
  req : CreateTaskRequest

/-- The calls of `createTask` in a run. -/
def calls : List Label → List Call
  | [] => []
  | .createTask now created req :: run => ⟨now, created, req⟩ :: calls run
  | _ :: run => calls run

/-- The tasks that these calls make. -/
def madeTasks (config : DownloadConfig) : Service → List Label → List Task
  | _, [] => []
  | s, .createTask now created req :: run =>
    newTask config now created s.taskCounter req ::
      madeTasks config (step config s (.createTask now created req)) run
  | s, l :: run => madeTasks config (step config s l) run

/-! ## Reading an id and a path back -/

theorem sep_notMem_decInt (n : ℤ) : (95 : Byte) ∉ decInt n := by
  intro h
  rcases mem_decInt h with h | h <;> exact absurd h (by decide)

theorem taskId_inj {now now' : Time} {n n' : ℤ} :
    taskId now n = taskId now' n' ↔ now.milliseconds = now'.milliseconds ∧ n = n' := by
  have hsep : lit "_" = [95] := by decide +kernel
  unfold taskId
  rw [hsep, List.append_assoc, List.append_assoc, List.singleton_append, List.append_assoc,
    List.append_assoc, List.singleton_append, List.append_cancel_left_eq,
    append_sep_inj (sep_notMem_decInt n) (sep_notMem_decInt n'), decInt_injective.eq_iff,
    decInt_injective.eq_iff]

theorem taskFilePath_inj {config : DownloadConfig} {now now' : Time} {req req' : CreateTaskRequest} :
    taskFilePath config now req = taskFilePath config now' req' ↔
      now.milliseconds = now'.milliseconds ∧ taskFilename now req = taskFilename now' req' := by
  have hsep : lit "_" = [95] := by decide +kernel
  unfold taskFilePath
  rw [List.append_cancel_right_eq, hsep, List.append_assoc, List.append_assoc, List.append_assoc,
    List.append_assoc, List.append_cancel_left_eq, List.singleton_append, List.singleton_append,
    append_sep_inj (sep_notMem_decInt _) (sep_notMem_decInt _), decInt_injective.eq_iff, and_comm]

/-! ## The counter -/

/-- Between two calls of `createTask` the counter stays. -/
theorem step_taskCounter (config : DownloadConfig) (s : Service) (l : Label) :
    (step config s l).taskCounter =
      match l with
      | .createTask _ _ _ => int32 (s.taskCounter + 1)
      | _ => s.taskCounter := by
  have hmove : ∀ i src dst, (moveJob s i src dst).taskCounter = s.taskCounter := by
    intro i src dst
    unfold moveJob
    split
    · split_ifs <;> rfl
    · rfl
  cases l with
  | createTask now created req => rfl
  | detach i => exact hmove i _ _
  | start i =>
    unfold step
    dsimp only
    split_ifs
    · exact hmove i _ _
    · rfl
  | execute i act =>
    unfold step stepJob
    dsimp only
    split
    · split <;> rfl
    · rfl
  | cleanup now => rfl

/-- The `i`-th call has the counter `i`, wrapped around. -/
theorem getElem?_madeTasks (config : DownloadConfig) (run : List Label) {s : Service} {n : ℤ}
    (hs : s.taskCounter = int32 n) (i : ℕ) :
    (madeTasks config s run)[i]? =
      (calls run)[i]?.map fun call => newTask config call.now call.created (int32 (n + i)) call.req := by
  induction run generalizing s n i with
  | nil => rfl
  | cons l run ih =>
    have hcounter := step_taskCounter config s l
    cases l with
    | createTask now created req =>
      have hnext : (step config s (.createTask now created req)).taskCounter = int32 (n + 1) := by
        rw [hcounter, hs]
        exact Int.bmod_add_bmod
      cases i with
      | zero => simp [madeTasks, calls, hs]
      | succ i =>
        have hshift : n + 1 + (i : ℤ) = n + ((i + 1 : ℕ) : ℤ) := by
          push_cast
          omega
        rw [madeTasks, calls, List.getElem?_cons_succ, List.getElem?_cons_succ, ih hnext i, hshift]
    | detach _ | start _ | execute _ _ | cleanup _ => exact ih (hcounter.trans hs) i

/-! ## Tasks that meet -/

/-- The calls in places `i` and `j` make different ids and different paths. -/
def Apart (i j : ℕ) (a b : Call) : Prop :=
  a.now.milliseconds = b.now.milliseconds →
    taskFilename a.now a.req ≠ taskFilename b.now b.req ∧ ¬ (2 ^ 32 : ℤ) ∣ j - i

theorem distinct_iff (config : DownloadConfig) (run : List Label) :
    ((madeTasks config {} run).Pairwise (·.id ≠ ·.id) ∧
        (madeTasks config {} run).Pairwise (·.filePath ≠ ·.filePath)) ↔
      ∀ i j : ℕ, i < j → ∀ a ∈ (calls run)[i]?, ∀ b ∈ (calls run)[j]?, Apart i j a b := by
  have hget := getElem?_madeTasks config run (show ({} : Service).taskCounter = int32 0 from rfl)
  rw [pairwise_iff_getElem?, pairwise_iff_getElem?]
  simp only [hget, Int.zero_add, Option.mem_def, Option.map_eq_some_iff, forall_exists_index, and_imp,
    forall_apply_eq_imp_iff₂]
  have hid : ∀ (i j : ℕ) (a b : Call),
      (newTask config a.now a.created (int32 i) a.req).id ≠
          (newTask config b.now b.created (int32 j) b.req).id ↔
        (a.now.milliseconds = b.now.milliseconds → ¬ (2 ^ 32 : ℤ) ∣ j - i) := by
    intro i j a b
    rw [Ne, ← int32_eq_iff, ← not_and]
    exact not_congr taskId_inj
  have hpath : ∀ (i j : ℕ) (a b : Call),
      (newTask config a.now a.created (int32 i) a.req).filePath ≠
          (newTask config b.now b.created (int32 j) b.req).filePath ↔
        (a.now.milliseconds = b.now.milliseconds →
          taskFilename a.now a.req ≠ taskFilename b.now b.req) := by
    intro i j a b
    rw [Ne, Ne, ← not_and]
    exact not_congr taskFilePath_inj
  simp only [hid, hpath, Apart]
  constructor
  · rintro ⟨hids, hpaths⟩ i j hij a ha b hb hms
    exact ⟨hpaths i j hij a ha b hb hms, hids i j hij a ha b hb hms⟩
  · intro h
    constructor
    · intro i j hij a ha b hb hms
      exact (h i j hij a ha b hb hms).2
    · intro i j hij a ha b hb hms
      exact (h i j hij a ha b hb hms).1

/-- Two songs of one name, in one batch. -/
def twoOfOneName : List Label :=
  [.createTask 0 0 ⟨lit "url", lit "song", lit "a", 0⟩, .createTask 0 0 ⟨lit "url", lit "song", lit "b", 0⟩]

theorem twoOfOneName_meet :
    ((calls twoOfOneName).map (·.now)).Pairwise (· ≤ ·) ∧
      ¬ (madeTasks {} {} twoOfOneName).Pairwise (·.filePath ≠ ·.filePath) := by
  decide +kernel

end NarMusic.Download
