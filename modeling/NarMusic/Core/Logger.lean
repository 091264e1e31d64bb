/-
  The logger (`core/logger.cpp`).

  `log` puts a record into a queue, and the writer thread takes the records out (`Lib.Monitor`)
  and appends them to the file.  When the file has grown past its limit it becomes the backup,
  in place of the backup that was there, and a new file is opened; when the renaming throws, the
  file is left closed and nothing is written from then on.

  The model begins behind `init`; the console is left out.
-/
import NarMusic.Lib.Lines
import NarMusic.Lib.Monitor

namespace NarMusic.Logger

open Cxx

inductive Level where
  | DEBUG
  | INFO
  | WARN
  | ERROR
  deriving DecidableEq

def Level.toNat : Level → ℕ
  | .DEBUG => 0
  | .INFO => 1
  | .WARN => 2
  | .ERROR => 3

structure Config where
  level : Level := .INFO
  file_path : Str := []
  max_size_mb : ℕ := 10

def levelToString : Level → Str
  | .DEBUG => lit "DEBUG"
  | .INFO => lit "INFO"
  | .WARN => lit "WARN"
  | .ERROR => lit "ERROR"

/-- `stamp` is the time, up to its milliseconds. -/
def formatMessage (stamp : Str) (level : Level) (tag msg : Str) : Str :=
  lit "[" ++ stamp ++ lit "] [" ++ levelToString level ++ lit "] [" ++ tag ++ lit "] " ++ msg

/-! ## The file -/

/-- The stream and the two files; a file that does not exist is empty. -/
structure LogFile where
  isOpen : Bool
  current : Str
  backup : Str

/-- What the file system does when the size is checked. -/
inductive Rotation where
  /-- `file_size` throws. -/
  | noSize
  /-- `rename` throws. -/
  | noRename
  | renamed (reopened : Bool)

/-- `config_.max_size_mb * 1024 * 1024`, as a `size_t` -/
def Config.limit (cfg : Config) : ℕ := cfg.max_size_mb * 1024 * 1024 % 2 ^ 64

def rotateIfNeeded (cfg : Config) (r : Rotation) (file : LogFile) : LogFile :=
  if cfg.file_path = [] ∨ file.isOpen = false then file
  else
    match r with
    | .noSize => file
    | .noRename => if cfg.limit < file.current.length then { file with isOpen := false } else file
    | .renamed reopened =>
      if cfg.limit < file.current.length then ⟨reopened, [], file.current⟩ else file

def writeToFile (cfg : Config) (r : Rotation) (formatted : Str) (file : LogFile) : LogFile :=
  if file.isOpen then rotateIfNeeded cfg r { file with current := file.current ++ formatted ++ [10] } else file

/-! ## Threads -/

structure State where
  logQueue : Monitor.State Str := {}
  file : LogFile

inductive Event where
  | log (level : Level) (tag msg stamp : Str)
  /-- `notify_one`, behind the push -/
  | notify
  /-- The store to `shutdown_`. -/
  | shutdown
  /-- `notify_all` in `shutdown` -/
  | announce
  | test
  | park
  | wake
  | write (r : Rotation)
  | swap

/-- What an event is for the queue. -/
def Event.onQueue (cfg : Config) : Event → Option (Monitor.Event Str)
  | .log level tag msg stamp =>
    if level.toNat < cfg.level.toNat then none else some (.send (formatMessage stamp level tag msg))
  | .notify => some .notify
  | .shutdown => some .close
  | .announce => some .announce
  | .test => some .test
  | .park => some .park
  | .wake => some .wake
  | .write _ => some .handle
  | .swap => some .drain

def step (cfg : Config) (s : State) (e : Event) : State where
  logQueue := (e.onQueue cfg).elim s.logQueue (Monitor.step s.logQueue)
  file :=
    match e, s.logQueue.receiver.hand with
    | .write r, formatted :: _ => writeToFile cfg r formatted s.file
    | _, _ => s.file

/-- The queue runs as a `Monitor`. -/
theorem logQueue_exec (cfg : Config) (s : State) (run : List Event) :
    (Run.exec (step cfg) s run).logQueue =
      Run.exec Monitor.step s.logQueue (run.filterMap (Event.onQueue cfg)) := by
  induction run generalizing s with
  | nil => rfl
  | cons e run ih =>
    rw [Run.exec_cons, ih, List.filterMap_cons]
    cases he : e.onQueue cfg with
    | none => simp [step, he]
    | some e' => simp [step, he]

/-- What the files hold, the older one first. -/
def LogFile.bytes (file : LogFile) : Str := file.backup ++ file.current

/-- Of the records that were handled the first are in the files, behind what was there before, and
    all of them while the file is open.  What has been dropped is what older backups held, and
    then more than a full file is kept. -/
def Kept (cfg : Config) (first : LogFile) (s : State) : Prop :=
  ∃ n dropped, n ≤ s.logQueue.handled.length ∧ (s.file.isOpen = true → n = s.logQueue.handled.length) ∧
    first.bytes ++ unlines 10 (s.logQueue.handled.take n) [] = dropped ++ s.file.bytes ∧
    (dropped = [] ∨ cfg.limit < s.file.backup.length)

theorem onQueue_ne {cfg : Config} {e : Event} (h : ∀ r, e ≠ .write r) : e.onQueue cfg ≠ some .handle := by
  cases e with
  | log level tag msg stamp =>
    rw [Event.onQueue]
    split_ifs <;> nofun
  | write r => exact absurd rfl (h r)
  | _ => nofun

/-- What a step does to the records that were handled, and to the files. -/
theorem step_cases (cfg : Config) (s : State) (e : Event) :
    ((step cfg s e).logQueue.handled = s.logQueue.handled ∧ (step cfg s e).file = s.file) ∨
      ∃ r formatted, e = .write r ∧ (step cfg s e).logQueue.handled = s.logQueue.handled ++ [formatted] ∧
        (step cfg s e).file = writeToFile cfg r formatted s.file := by
  by_cases hwrite : ∃ r, e = .write r
  · obtain ⟨r, rfl⟩ := hwrite
    have hhandled : (step cfg s (.write r)).logQueue.handled =
        s.logQueue.handled ++ s.logQueue.receiver.hand.take 1 := Monitor.handled_handle s.logQueue
    cases hhand : s.logQueue.receiver.hand with
    | nil => exact Or.inl ⟨by rw [hhandled, hhand]; simp, by simp [step, hhand]⟩
    | cons formatted rest =>
      exact Or.inr ⟨r, formatted, rfl, by rw [hhandled, hhand]; rfl, by simp [step, hhand]⟩
  · have hne : e.onQueue cfg ≠ some .handle := onQueue_ne fun r hr => hwrite ⟨r, hr⟩
    refine Or.inl ⟨?_, ?_⟩
    · cases he : e.onQueue cfg with
      | none => simp [step, he]
      | some e' =>
        rw [he] at hne
        simp only [step, he, Option.elim_some]
        exact Monitor.handled_step _ fun h => hne (congrArg some h)
    · cases e with
      | write r => exact absurd ⟨r, rfl⟩ hwrite
      | _ => rfl

/-- Records of at most `m` bytes: the file in use is within the limit, or no longer than it was at the
    start, and no file is longer than that by more than a record. -/
structure Sized (cfg : Config) (first : LogFile) (m : ℕ) (file : LogFile) : Prop where
  room : file.isOpen = true → file.current.length ≤ max cfg.limit first.current.length
  current : file.current.length ≤ max cfg.limit first.current.length + m + 1
  backup : file.backup = first.backup ∨
    cfg.limit < file.backup.length ∧ file.backup.length ≤ max cfg.limit first.current.length + m + 1

/-- `file_size` succeeds. -/
def Event.sized : Event → Bool
  | .write .noSize => false
  | _ => true

theorem sized_writeToFile {cfg : Config} (hpath : cfg.file_path ≠ []) {r : Rotation}
    (hr : (Event.write r).sized = true) {formatted : Str} {m : ℕ} (hm : formatted.length ≤ m)
    {first file : LogFile} (h : Sized cfg first m file) : Sized cfg first m (writeToFile cfg r formatted file) := by
  unfold writeToFile
  split_ifs with hopen
  · have hroom := h.room hopen
    have hlength : (file.current ++ formatted ++ [10]).length = file.current.length + formatted.length + 1 := by
      simp [Nat.add_assoc]
    have hnext : (file.current ++ formatted ++ [10]).length ≤ max cfg.limit first.current.length + m + 1 := by omega
    unfold rotateIfNeeded
    rw [if_neg (by simp [hpath, hopen])]
    by_cases hfull : cfg.limit < (file.current ++ formatted ++ [10]).length
    · match r, hr with
      | .noRename, _ =>
        dsimp only
        rw [if_pos hfull]
        exact ⟨nofun, hnext, h.backup⟩
      | .renamed reopened, _ =>
        dsimp only
        rw [if_pos hfull]
        exact ⟨fun _ => Nat.zero_le _, Nat.zero_le _, Or.inr ⟨hfull, hnext⟩⟩
    · have hfits : (file.current ++ formatted ++ [10]).length ≤ max cfg.limit first.current.length := by omega
      match r, hr with
      | .noRename, _ =>
        dsimp only
        rw [if_neg hfull]
        exact ⟨fun _ => hfits, hnext, h.backup⟩
      | .renamed reopened, _ =>
        dsimp only
        rw [if_neg hfull]
        exact ⟨fun _ => hfits, hnext, h.backup⟩
  · exact h

/-- A record is in hand only after it has been sent. -/
theorem handled_sent (cfg : Config) (first : LogFile) (run : List Event) :
    (Run.exec (step cfg) { file := first } run).logQueue.handled <+:
      (Run.exec (step cfg) { file := first } run).logQueue.sent := by
  rw [logQueue_exec, ← (Monitor.inv_exec _).order, List.append_assoc]
  exact List.prefix_append _ _

/-- **The log does not grow without bound.** -/
theorem sized_exec (cfg : Config) (hpath : cfg.file_path ≠ []) (first : LogFile) (m : ℕ) (run : List Event)
    (hsized : ∀ e ∈ run, e.sized = true)
    (hm : ∀ formatted ∈ (Run.exec (step cfg) { file := first } run).logQueue.sent, formatted.length ≤ m) :
    Sized cfg first m (Run.exec (step cfg) { file := first } run).file := by
  replace hm := fun formatted hmem => hm formatted ((handled_sent cfg first run).subset hmem)
  induction run using List.reverseRecOn with
  | nil => exact ⟨fun _ => le_max_right _ _, by simp; omega, Or.inl rfl⟩
  | append_singleton run e ih =>
    have hexec : Run.exec (step cfg) { file := first } (run ++ [e]) =
        step cfg (Run.exec (step cfg) { file := first } run) e := List.foldl_append
    rw [hexec] at hm ⊢
    rcases step_cases cfg (Run.exec (step cfg) { file := first } run) e with
      ⟨hhandled, hfile⟩ | ⟨r, formatted, rfl, hhandled, hfile⟩
    · rw [hfile]
      rw [hhandled] at hm
      exact ih (fun e' he' => hsized e' (List.mem_append_left _ he')) hm
    · rw [hfile]
      rw [hhandled] at hm
      refine sized_writeToFile hpath (hsized _ (by simp)) (hm formatted (by simp)) ?_
      exact ih (fun e' he' => hsized e' (List.mem_append_left _ he')) fun f hf => hm f (List.mem_append_left _ hf)

theorem sized_exec_one :
    let cfg : Config := { file_path := lit "a.log", max_size_mb := 0 }
    let run : List Event := [.log .INFO [] (lit "a") [], .notify, .test, .write (.renamed true)]
    Sized cfg ⟨true, lit "xy", []⟩ 14 ⟨true, [], lit "xy[] [INFO] [] a\n"⟩ ∧
      (Run.exec (step cfg) { file := ⟨true, lit "xy", []⟩ } run).file.backup = lit "xy[] [INFO] [] a\n" :=
  ⟨sized_exec { file_path := lit "a.log", max_size_mb := 0 } (by decide) ⟨true, lit "xy", []⟩ 14
    [.log .INFO [] (lit "a") [], .notify, .test, .write (.renamed true)] (by simp [Event.sized])
    (fun formatted h => by obtain rfl := List.mem_singleton.1 h; decide), rfl⟩

/-! ## Wake-ups -/

/-- The writer can run to its end by steps of its own. -/
def Ends (cfg : Config) (s : State) : Prop :=
  ∃ run : List Event, (∀ e ∈ run, (e.onQueue cfg).any Monitor.Event.own = true) ∧
    (Run.exec (step cfg) s run).logQueue.receiver = .done

/-- Every own step of the receiver is one of the writer. -/
theorem own_lift (cfg : Config) {run : List (Monitor.Event Str)} (hown : ∀ e ∈ run, e.own = true) :
    ∃ run₀ : List Event, (∀ e ∈ run₀, (e.onQueue cfg).any Monitor.Event.own = true) ∧
      run₀.filterMap (Event.onQueue cfg) = run := by
  induction run with
  | nil => exact ⟨[], by simp, rfl⟩
  | cons e' run ih =>
    obtain ⟨he', hrun⟩ := List.forall_mem_cons.1 hown
    obtain ⟨run₀, hown₀, heq⟩ := ih hrun
    have hback : ∃ e : Event, e.onQueue cfg = some e' := by
      cases e' with
      | test => exact ⟨.test, rfl⟩
      | handle => exact ⟨.write .noSize, rfl⟩
      | drain => exact ⟨.swap, rfl⟩
      | _ => cases he'
    obtain ⟨e, he⟩ := hback
    refine ⟨e :: run₀, List.forall_mem_cons.2 ⟨by rw [he]; exact he', hown₀⟩, ?_⟩
    rw [List.filterMap_cons_some he, heq]

theorem ends_iff (cfg : Config) (s : State) : Ends cfg s ↔ Monitor.Ends s.logQueue := by
  constructor
  · rintro ⟨run, hown, hdone⟩
    refine ⟨run.filterMap (Event.onQueue cfg), fun e' he' => ?_, by rw [← logQueue_exec]; exact hdone⟩
    obtain ⟨e, he, heq⟩ := List.mem_filterMap.1 he'
    have hany := hown e he
    rw [heq] at hany
    exact hany
  · rintro ⟨run, hown, hdone⟩
    obtain ⟨run₀, hown₀, heq⟩ := own_lift cfg hown
    exact ⟨run₀, hown₀, by rw [logQueue_exec, heq]; exact hdone⟩

theorem onQueue_announce {cfg : Config} {e : Event} (h : e.onQueue cfg = some .announce) : e = .announce := by
  cases e with
  | log level tag msg stamp =>
    rw [Event.onQueue] at h
    split_ifs at h
    cases h
  | announce => rfl
  | _ => cases h

/-- **Wake-ups.**  The writer sleeps with a record in the queue only while a notification is on its
    way, but nothing wakes it for the end: behind `notify_all` it can go on to its end unless it
    sleeps or is about to, and then `notify_all` came between its test and its sleep. -/
theorem shutdown_ends (cfg : Config) (first : LogFile) (run : List Event)
    (hannounced : (Run.exec (step cfg) { file := first } run).logQueue.announced = true) :
    let s := Run.exec (step cfg) { file := first } run
    (s.logQueue.receiver = .asleep → s.logQueue.queue ≠ [] → 0 < s.logQueue.owed) ∧
      (¬ Ends cfg s ↔ s.logQueue.receiver = .parking ∨ s.logQueue.receiver = .asleep) ∧
      (¬ Ends cfg s → ∃ front back, run = front ++ .announce :: back ∧
        (Run.exec (step cfg) { file := first } front).logQueue.receiver = .parking) := by
  intro s
  have hs : s.logQueue = Run.exec Monitor.step {} (run.filterMap (Event.onQueue cfg)) := logQueue_exec cfg _ run
  have hannounced : s.logQueue.announced = true := hannounced
  rw [ends_iff, hs] at *
  have hinv := Monitor.inv_exec (run.filterMap (Event.onQueue cfg))
  refine ⟨hinv.owed, ⟨fun hnot => ?_, Monitor.not_ends⟩, fun hnot => ?_⟩
  · by_contra hawake
    obtain ⟨hpark, hasleep⟩ := not_or.1 hawake
    exact hnot (Monitor.ends_alone (hinv.announced hannounced) hpark hasleep)
  · obtain ⟨front', back', hsplit, hpark⟩ := (Monitor.ends_or_missed _ hannounced).resolve_left hnot
    obtain ⟨front, rest, rfl, rfl, hrest⟩ := List.filterMap_eq_append_iff.1 hsplit
    obtain ⟨skipped, e, back, rfl, hskip, he, -⟩ := List.filterMap_eq_cons_iff.1 hrest
    obtain rfl := onQueue_announce he
    refine ⟨front ++ skipped, back, by simp, ?_⟩
    rw [logQueue_exec, List.filterMap_append, List.filterMap_eq_nil_iff.2 hskip, List.append_nil]
    exact hpark

/-- `notify_all` between the test and the sleep. -/
theorem shutdown_ends_missed :
    let run : List Event := [.test, .shutdown, .announce, .park]
    ¬ Ends {} (Run.exec (step {}) { file := ⟨true, [], []⟩ } run) :=
  (shutdown_ends {} ⟨true, [], []⟩ [.test, .shutdown, .announce, .park] rfl).2.1.2 (Or.inr rfl)

end NarMusic.Logger
