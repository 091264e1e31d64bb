/-
  The download directory and the paths that `createTask` makes.

  The path is `config.path` with the file name, the millisecond and the extension
  behind it, and nothing is checked: the file name may have separators and `..`.
  `Stays` says, on the texts that are put together, when the path is still below the
  directory (`stays_iff`); a name without a separator stays (`stays_of_plain`).
-/
import NarMusic.Lib.Path
import NarMusic.Download.Replace

namespace NarMusic.Download

open Cxx Path

/-- What `createTask` appends to `config.path`. -/
def fileText (config : DownloadConfig) (now : Time) (req : CreateTaskRequest) : Str :=
  taskFilename now req ++ lit "_" ++ decInt now.milliseconds ++ config.extension

/-- `config.path` in normal form, as a C string. -/
def downloadDir (config : DownloadConfig) : Normal := lexicallyNormal (cStr config.path)

/-- A path up to its last separator. -/
def pathDirectory (path : Str) : Str := (path.reverse.dropWhile (· ≠ sep)).reverse

/-- A file text that does not lead out of the directory.  Where the two texts meet at a separator,
    every `..` at the front of the file text that drops a name of the directory must be made good by
    that name; where the file text goes on with the last name of `config.path`, so must that name. -/
def Stays (config : DownloadConfig) (file : Str) : Prop :=
  0 ∉ config.path ∧ (config.path = [] → file.head? ≠ some sep) ∧
    if config.path = [] ∨ config.path.getLast? = some sep ∨ file.head? = some sep then
      let dir := normalise (components config.path)
      let rest := normalise (components file)
      (config.path.head? = some sep ∨ rest.ups ≤ dir.names.length) ∧
        StrictPrefix (dir.names.drop (dir.names.length - rest.ups)) rest.names
    else
      let dir := normalise (components (pathDirectory config.path))
      let last := normalise (components (pathFilename config.path))
      let rest := normalise (components (pathFilename config.path ++ file))
      (config.path.head? = some sep ∨ rest.ups - dir.names.length = last.ups - dir.names.length) ∧
        StrictPrefix (dir.append last).names (dir.append rest).names

/-! ## Normal forms below another -/

theorem strictPrefix_irrefl (l : List Str) : ¬ StrictPrefix l l := fun h => h.2 rfl

theorem strictPrefix_append {a b c : List Str} : StrictPrefix (a ++ b) (a ++ c) ↔ StrictPrefix b c := by
  simp only [StrictPrefix, List.prefix_append_right_inj, ne_eq, List.append_cancel_left_eq]

/-- A directory is below what a path makes of it when the path gives back the names it drops. -/
theorem strictPrefix_rel {a b : Rel} :
    StrictPrefix a.names (a.append b).names ↔
      StrictPrefix (a.names.drop (a.names.length - b.ups)) b.names := by
  let kept := a.names.take (a.names.length - b.ups)
  let dropped := a.names.drop (a.names.length - b.ups)
  have hsplit : kept ++ dropped = a.names := List.take_append_drop _ _
  calc StrictPrefix a.names (a.append b).names
      ↔ StrictPrefix (kept ++ dropped) (kept ++ b.names) := by rw [hsplit]; rfl
    _ ↔ StrictPrefix dropped b.names := strictPrefix_append

theorem pathDirectory_append (path : Str) : pathDirectory path ++ pathFilename path = path := by
  have h := List.takeWhile_append_dropWhile (p := (· ≠ sep)) (l := path.reverse)
  have hrev := congrArg List.reverse h
  rw [List.reverse_append, List.reverse_reverse] at hrev
  exact hrev

/-- Up to its last separator a path is empty or ends with it. -/
theorem pathDirectory_meets (path : Str) : pathDirectory path = [] ∨ (pathDirectory path).getLast? = some sep := by
  unfold pathDirectory
  rcases hdrop : path.reverse.dropWhile (· ≠ sep) with _ | ⟨c, l⟩
  · exact Or.inl rfl
  · right
    have hne : path.reverse.dropWhile (· ≠ sep) ≠ [] := by
      rw [hdrop]
      nofun
    have hc := List.head_dropWhile_not (· ≠ sep) hne
    simp only [hdrop, List.head_cons, decide_eq_false_iff_not, not_not] at hc
    simp [hc]

theorem below_iff {path file : Str} (hpath : path = [] → file.head? ≠ some sep) :
    (lexicallyNormal path).Below (lexicallyNormal (path ++ file)) ↔
      (path.head? = some sep ∨
        (normalise (components (path ++ file))).ups = (normalise (components path)).ups) ∧
          StrictPrefix (normalise (components path)).names (normalise (components (path ++ file))).names := by
  have habs : (path ++ file).head? = some sep ↔ path.head? = some sep := by
    cases path with
    | nil => simp [hpath rfl]
    | cons c path => simp
  unfold Normal.Below lexicallyNormal
  simp only [habs, true_and]
  by_cases hhead : path.head? = some sep <;> simp [hhead]

theorem below_stays {config : DownloadConfig} {file : Str} (hnul : 0 ∉ config.path) :
    (lexicallyNormal config.path).Below (lexicallyNormal (config.path ++ file)) ↔ Stays config file := by
  by_cases hroot : config.path = [] ∧ file.head? = some sep
  · -- the path is made absolute
    constructor
    · intro h
      have habs := h.1
      simp [lexicallyNormal, hroot.1, hroot.2] at habs
    · intro h
      exact absurd hroot.2 (h.2.1 hroot.1)
  · have hrel : config.path = [] → file.head? ≠ some sep := fun hempty hhead => hroot ⟨hempty, hhead⟩
    rw [below_iff hrel]
    simp only [Stays, hnul, not_false_iff, true_and]
    rw [and_iff_right hrel]
    split_ifs with hmeet
    · rw [components_append hmeet, normalise_append, strictPrefix_rel]
      refine and_congr_left fun _ => or_congr_right ?_
      simp only [Rel.append]
      omega
    · have hdir := pathDirectory_append config.path
      have hmeets : ∀ b : Str, components (pathDirectory config.path ++ b) =
          components (pathDirectory config.path) ++ components b := by
        intro b
        exact components_append ((pathDirectory_meets config.path).imp_right Or.inl)
      have hbase : normalise (components config.path) =
          (normalise (components (pathDirectory config.path))).append
            (normalise (components (pathFilename config.path))) := by
        rw [← normalise_append, ← hmeets, hdir]
      have hpath : normalise (components (config.path ++ file)) =
          (normalise (components (pathDirectory config.path))).append
            (normalise (components (pathFilename config.path ++ file))) := by
        rw [← normalise_append, ← hmeets, ← List.append_assoc, hdir]
      rw [hbase, hpath]
      refine and_congr_left fun _ => or_congr_right ?_
      simp only [Rel.append]
      omega

/-- A name without a separator leads nowhere else. -/
theorem stays_of_plain {config : DownloadConfig} {file : Str} (hnul : 0 ∉ config.path)
    (hend : config.path.getLast? = some sep) (hfile : sep ∉ file) (hne : file ≠ [])
    (hdot : file ≠ lit ".") (hdots : file ≠ lit "..") : Stays config file := by
  have hcomp : normalise (components file) = ⟨0, [file]⟩ := by
    rw [components, List.splitOn_eq_singleton hfile]
    simp [normalise, Rel.push, hne, hdot, hdots]
  have hpath : config.path ≠ [] := by
    rintro hempty
    rw [hempty] at hend
    cases hend
  refine ⟨hnul, fun hempty => absurd hempty hpath, ?_⟩
  rw [if_pos (Or.inr (Or.inl hend)), hcomp]
  simp [StrictPrefix]

/-! ## The path of a task -/

theorem taskFilePath_eq (config : DownloadConfig) (now : Time) (req : CreateTaskRequest) :
    taskFilePath config now req = config.path ++ fileText config now req := by
  simp only [taskFilePath, fileText, List.append_assoc]

/-- **The download directory.**  The path of a task that has been created, which the downloader and
    then the library get, is below the directory exactly when the file text stays. -/
theorem stays_iff (config : DownloadConfig) (tasks : TaskTable) (now created later : Time)
    (taskCounter : ℤ) (req : CreateTaskRequest) :
    ∃ task, (tasks.save (newTask config now created taskCounter req)).findById (taskId now taskCounter) later =
        some task ∧
      (∀ id x, (LibraryRow.ofEntry id (newEntry req task.filePath x)).filePath = task.filePath) ∧
      ((downloadDir config).Below (lexicallyNormal task.filePath) ↔
        Stays config (cStr (fileText config now req))) := by
  refine ⟨_, TaskTable.findById_save tasks (newTask config now created taskCounter req) later,
    fun id x => cStr_cStr _, ?_⟩
  show (downloadDir config).Below (lexicallyNormal (cStr (taskFilePath config now req))) ↔ _
  rw [taskFilePath_eq]
  by_cases hnul : 0 ∈ config.path
  · rw [cStr_append_of_mem hnul]
    exact ⟨fun h => absurd h.2.2 (strictPrefix_irrefl _), fun h => absurd hnul h.1⟩
  · rw [cStr_append hnul, downloadDir, cStr_of_notMem hnul]
    exact below_stays hnul

/-- A request whose file name leads two directories up. -/
def twoUp : CreateTaskRequest := ⟨lit "url", lit "../../x", [], 0⟩

theorem twoUp_leaves :
    ¬ (downloadDir {}).Below (lexicallyNormal (cStr (taskFilePath {} 0 twoUp))) := by
  decide +kernel

end NarMusic.Download
