/-
  Downloads of several songs (`LibraryController::batchDownload`).

  A worker thread writes the archive of a request to a path in /tmp that it makes from
  the clock, to the second, asks for its size and queues the response; the event loop
  opens the path again, streams the file and unlinks the path.  The steps of all
  requests interleave in any order.
-/
import NarMusic.Zip.Writer
import NarMusic.Server.Connection
import NarMusic.Lib.Inodes
import NarMusic.Lib.Run

namespace NarMusic.BatchDownload

open Cxx Zip Inodes

/-- What the archive of a request is built from: its songs under their names, the files as they are
    read, zlib, and the clock of the file times. -/
structure Job where
  entries : List ZipEntry
  files : Str → Option Str
  deflate : ℕ → Str → Option Str
  time : Tm
  date : Tm

/-- What `createToFile` returns and writes for the request alone. -/
def Job.created (job : Job) : Bool × Str :=
  createToFile true job.time job.date job.files job.deflate job.entries

def Job.archive (job : Job) : Str := job.created.2

def dateStr (t : Tm) : Str :=
  lit "NarMusic_" ++ dec (1900 + t.year) ++ pad2 (t.mon + 1) ++ pad2 t.mday ++ lit "_" ++
    pad2 t.hour ++ pad2 t.min ++ pad2 t.sec

def zipPath (t : Tm) : Str := lit "/tmp/narnat_" ++ dateStr t ++ lit ".zip"

/-- The fields have two digits. -/
def TwoDigits (t : Tm) : Prop :=
  t.mon + 1 < 100 ∧ t.mday < 100 ∧ t.hour < 100 ∧ t.min < 100 ∧ t.sec < 100

/-- The path is that of one second of local time. -/
theorem zipPath_inj {t t' : Tm} (ht : TwoDigits t) (ht' : TwoDigits t') : zipPath t = zipPath t' ↔ t = t' := by
  refine ⟨fun h => ?_, fun h => h ▸ rfl⟩
  obtain ⟨h1, h2, h3, h4, h5⟩ := ht
  obtain ⟨h1', h2', h3', h4', h5'⟩ := ht'
  obtain ⟨h, -⟩ := List.append_inj' h rfl
  obtain ⟨-, h⟩ := List.append_inj h rfl
  obtain ⟨h, hsec⟩ := List.append_inj' h (by rw [length_pad2 h5, length_pad2 h5'])
  obtain ⟨h, hmin⟩ := List.append_inj' h (by rw [length_pad2 h4, length_pad2 h4'])
  obtain ⟨h, hhour⟩ := List.append_inj' h (by rw [length_pad2 h3, length_pad2 h3'])
  obtain ⟨h, -⟩ := List.append_inj' h rfl
  obtain ⟨h, hmday⟩ := List.append_inj' h (by rw [length_pad2 h2, length_pad2 h2'])
  obtain ⟨h, hmon⟩ := List.append_inj' h (by rw [length_pad2 h1, length_pad2 h1'])
  obtain ⟨-, hyear⟩ := List.append_inj h rfl
  have hy := dec_injective hyear
  have hm := pad2_injective hmon
  cases t
  cases t'
  simp_all [pad2_injective.eq_iff]

/-- Where a request is. -/
inductive Phase where
  | idle
  /-- In `createToFile`, with `pos` bytes written. -/
  | writing (path : Str) (file : Inode) (pos : ℕ)
  | created (path : Str)
  /-- The response waits for the event loop; `size` is `info.fileSize`. -/
  | queued (path : Str) (size : ℕ)
  | streaming (path : Str) (file : Inode) (fileOffset : ℕ) (fileEnd : ℤ)
  | done
  | zipFailed
  | statFailed
  | openFailed
  /-- The connection was closed. -/
  | gone
  deriving DecidableEq

/-- The path of a request in flight. -/
def Phase.path : Phase → Option Str
  | writing path .. | created path | queued path _ | streaming path .. => some path
  | idle | done | zipFailed | statFailed | openFailed | gone => none

/-- A request and the bytes of the file that its client was sent. -/
structure Client where
  phase : Phase := .idle
  received : Str := []
  deriving DecidableEq

inductive Action where
  /-- The clock is read and the archive is opened for writing, which may fail. -/
  | start (now : ℤ) (opened : Bool)
  /-- Some bytes of the archive get to the file. -/
  | write (n : ℕ)
  /-- `createToFile` writes the rest and returns. -/
  | finish
  /-- `stat`, and the response is queued. -/
  | stat
  /-- `processPendingWrites` opens the file. -/
  | openFile
  /-- One call of `sendfile`, which sends `n + 1` bytes at most. -/
  | send (n : ℕ)
  /-- `sendfile` fails. -/
  | sendFails
  /-- The connection is closed, by the client or after a timeout. -/
  | drop

section
variable (localtime : ℤ → Tm)

/-- One step of a request. -/
def act (job : Job) : Action → FileSystem Str × Client → FileSystem Str × Client
  | .start now opened, (fs, ⟨.idle, received⟩) =>
    let path := zipPath (localtime now)
    if opened then (fs.create path, ⟨.writing path (fs.createInode path) 0, received⟩)
    else (fs.unlink path, ⟨.zipFailed, received⟩)
  | .write n, (fs, ⟨.writing path file pos, received⟩) =>
    let bytes := (job.archive.drop pos).take n
    (fs.write file pos bytes, ⟨.writing path file (pos + bytes.length), received⟩)
  | .finish, (fs, ⟨.writing path file pos, received⟩) =>
    let fs := fs.write file pos (job.archive.drop pos)
    if job.created.1 then (fs, ⟨.created path, received⟩) else (fs.unlink path, ⟨.zipFailed, received⟩)
  | .stat, (fs, ⟨.created path, received⟩) =>
    match fs.content path with
    | none => (fs.unlink path, ⟨.statFailed, received⟩)
    | some bytes => (fs, ⟨.queued path bytes.length, received⟩)
  | .openFile, (fs, ⟨.queued path size, received⟩) =>
    match fs.names path with
    | none => (fs, ⟨.openFailed, received⟩)
    | some file => (fs, ⟨.streaming path file 0 (size - 1), received⟩)
  | .send n, (fs, ⟨.streaming path file fileOffset fileEnd, received⟩) =>
    let toSend := min FILE_CHUNK_SIZE (fileEnd - fileOffset + 1).toNat
    let bytes := ((fs.data file).drop fileOffset).take (min (n + 1) toSend)
    if bytes = [] ∨ fileEnd < fileOffset + bytes.length then (fs.unlink path, ⟨.done, received ++ bytes⟩)
    else (fs, ⟨.streaming path file (fileOffset + bytes.length) fileEnd, received ++ bytes⟩)
  | .sendFails, (fs, ⟨.streaming path .., received⟩) => (fs.unlink path, ⟨.gone, received⟩)
  | .drop, (fs, ⟨.queued .., received⟩) => (fs, ⟨.gone, received⟩)
  | .drop, (fs, ⟨.streaming .., received⟩) => (fs, ⟨.gone, received⟩)
  | _, s => s

/-- The files and the requests. -/
structure Sys where
  files : FileSystem Str
  client : ℕ → Client

/-- One step of one request. -/
def step (jobs : ℕ → Job) (s : Sys) (e : ℕ × Action) : Sys :=
  let after := act localtime (jobs e.1) e.2 (s.files, s.client e.1)
  ⟨after.1, Function.update s.client e.1 after.2⟩

/-- No request has started; there may be files. -/
def init (files : FileSystem Str) : Sys := ⟨files, fun _ => {}⟩

/-- No request disturbs another: what a client has is its own archive so far, all of it at the end,
    and no file is missing. -/
structure Undisturbed (jobs : ℕ → Job) (s : Sys) : Prop where
  bytes : ∀ r, (s.client r).received <+: (jobs r).archive
  complete : ∀ r, (s.client r).phase = .done → (s.client r).received = (jobs r).archive
  found : ∀ r, (s.client r).phase ≠ .statFailed ∧ (s.client r).phase ≠ .openFailed

/-- A request starts at a path that no other one in flight has. -/
def Fresh (s : Sys) : ℕ × Action → Prop
  | (r, .start now _) =>
    (s.client r).phase = .idle → ∀ r' ≠ r, (s.client r').phase.path ≠ some (zipPath (localtime now))
  | _ => True

end

/-! ## One request alone -/

/-- What a request relies on: the file behind its path is its own, with the bytes it has written. -/
def Holds (fs : FileSystem Str) (job : Job) (c : Client) : Prop :=
  match c.phase with
  | .idle | .zipFailed => c.received = []
  | .writing path file pos =>
    (fs.names path = some file ∧ fs.data file = job.archive.take pos) ∧ pos ≤ job.archive.length ∧
      c.received = []
  | .created path => (∃ file, fs.names path = some file ∧ fs.data file = job.archive) ∧ c.received = []
  | .queued path size =>
    (∃ file, fs.names path = some file ∧ fs.data file = job.archive) ∧ size = job.archive.length ∧
      c.received = []
  | .streaming path file fileOffset fileEnd =>
    (fs.names path = some file ∧ fs.data file = job.archive) ∧ fileEnd = job.archive.length - 1 ∧
      c.received = job.archive.take fileOffset
  | .done => c.received = job.archive
  | .statFailed | .openFailed => False
  | .gone => c.received <+: job.archive

/-- Changes at other paths do not matter. -/
theorem Holds.apart {fs fs' : FileSystem Str} {job : Job} {c : Client} {p : Str} (h : Holds fs job c)
    (hp : c.phase.path ≠ some p) (hapart : FileSystem.Apart p fs fs') : Holds fs' job c := by
  obtain ⟨phase, received⟩ := c
  cases phase with
  | writing path file pos => exact ⟨hapart.keeps (fun heq => hp (congrArg some heq)) h.1, h.2⟩
  | created path =>
    obtain ⟨⟨file, hfile⟩, hrest⟩ := h
    exact ⟨⟨file, hapart.keeps (fun heq => hp (congrArg some heq)) hfile⟩, hrest⟩
  | queued path size =>
    obtain ⟨⟨file, hfile⟩, hrest⟩ := h
    exact ⟨⟨file, hapart.keeps (fun heq => hp (congrArg some heq)) hfile⟩, hrest⟩
  | streaming path file fileOffset fileEnd =>
    exact ⟨hapart.keeps (fun heq => hp (congrArg some heq)) h.1, h.2⟩
  | _ => exact h

/-- The path that a step works on. -/
def target (localtime : ℤ → Tm) : Action → Phase → Option Str
  | .start now _, .idle => some (zipPath (localtime now))
  | _, phase => phase.path

variable {localtime : ℤ → Tm}

/-- What is shown of a step: the request holds on, and only its own path is touched. -/
def Safe (localtime : ℤ → Tm) (job : Job) (fs : FileSystem Str) (c : Client) (a : Action) : Prop :=
  let after := act localtime job a (fs, c)
  Holds after.1 job after.2 ∧
    (after.1 = fs ∨ ∃ p, target localtime a c.phase = some p ∧ FileSystem.Apart p fs after.1) ∧
    (after.2.phase.path = none ∨ after.2.phase.path = target localtime a c.phase)

section
variable {fs : FileSystem Str} {job : Job} {path received : Str} {file : Inode}

theorem safe_start (h : Holds fs job ⟨.idle, received⟩) (now : ℤ) (opened : Bool) :
    Safe localtime job fs ⟨.idle, received⟩ (.start now opened) := by
  cases opened with
  | false => exact ⟨h, Or.inr ⟨_, rfl, FileSystem.apart_unlink fs _⟩, Or.inl rfl⟩
  | true =>
    refine ⟨⟨⟨FileSystem.names_create fs _, ?_⟩, Nat.zero_le _, h⟩,
      Or.inr ⟨_, rfl, FileSystem.apart_create fs _⟩, Or.inr rfl⟩
    exact FileSystem.data_create fs _

/-- The bytes behind the written ones are appended. -/
theorem data_write {pos n : ℕ} (h : fs.data file = job.archive.take pos) (hpos : pos ≤ job.archive.length) :
    (fs.write file pos ((job.archive.drop pos).take n)).data file =
      job.archive.take (pos + ((job.archive.drop pos).take n).length) := by
  have hlen : (fs.data file).length = pos := by rw [h, List.length_take, min_eq_left hpos]
  rw [FileSystem.data_write_end hlen, h, List.take_add]
  congr 1
  rw [List.length_take, ← List.take_eq_take_min]

theorem safe_write {pos : ℕ} (h : Holds fs job ⟨.writing path file pos, received⟩) (n : ℕ) :
    Safe localtime job fs ⟨.writing path file pos, received⟩ (.write n) := by
  obtain ⟨⟨hname, hdata⟩, hpos, hreceived⟩ := h
  refine ⟨⟨⟨hname, data_write hdata hpos⟩, ?_, hreceived⟩,
    Or.inr ⟨path, rfl, FileSystem.apart_write hname _ _⟩, Or.inr rfl⟩
  rw [List.length_take, List.length_drop]
  omega

theorem safe_finish {pos : ℕ} (h : Holds fs job ⟨.writing path file pos, received⟩) :
    Safe localtime job fs ⟨.writing path file pos, received⟩ .finish := by
  obtain ⟨⟨hname, hdata⟩, hpos, hreceived⟩ := h
  have hwrite := FileSystem.apart_write hname pos (job.archive.drop pos)
  have hall : (fs.write file pos (job.archive.drop pos)).data file = job.archive := by
    have hlen : (fs.data file).length = pos := by rw [hdata, List.length_take, min_eq_left hpos]
    rw [FileSystem.data_write_end hlen, hdata, List.take_append_drop]
  unfold Safe
  dsimp only [act]
  split_ifs
  · exact ⟨⟨⟨file, hname, hall⟩, hreceived⟩, Or.inr ⟨path, rfl, hwrite⟩, Or.inr rfl⟩
  · exact ⟨hreceived, Or.inr ⟨path, rfl, hwrite.trans (FileSystem.apart_unlink _ path)⟩, Or.inl rfl⟩

theorem safe_stat (h : Holds fs job ⟨.created path, received⟩) :
    Safe localtime job fs ⟨.created path, received⟩ .stat := by
  obtain ⟨⟨file, hname, hdata⟩, hreceived⟩ := h
  have hcontent : fs.content path = some job.archive := by rw [FileSystem.content, hname, ← hdata]; rfl
  unfold Safe
  dsimp only [act]
  rw [hcontent]
  exact ⟨⟨⟨file, hname, hdata⟩, rfl, hreceived⟩, Or.inl rfl, Or.inr rfl⟩

theorem safe_openFile {size : ℕ} (h : Holds fs job ⟨.queued path size, received⟩) :
    Safe localtime job fs ⟨.queued path size, received⟩ .openFile := by
  obtain ⟨⟨file, hname, hdata⟩, hsize, hreceived⟩ := h
  unfold Safe
  dsimp only [act]
  rw [hname]
  exact ⟨⟨⟨hname, hdata⟩, by rw [hsize], hreceived⟩, Or.inl rfl, Or.inr rfl⟩

/-- Every call of `sendfile` sends the next bytes, and the last one the rest. -/
theorem safe_send {fileOffset : ℕ} {fileEnd : ℤ}
    (h : Holds fs job ⟨.streaming path file fileOffset fileEnd, received⟩) (n : ℕ) :
    Safe localtime job fs ⟨.streaming path file fileOffset fileEnd, received⟩ (.send n) := by
  obtain ⟨⟨hname, hdata⟩, hend, hreceived⟩ := h
  unfold Safe
  dsimp only [act] at hend hreceived ⊢
  rw [hdata]
  generalize htoSend : min (n + 1) (min FILE_CHUNK_SIZE (fileEnd - fileOffset + 1).toNat) = toSend
  set bytes := (job.archive.drop fileOffset).take toSend with hbytes
  have hlen : bytes.length = min toSend (job.archive.length - fileOffset) := by
    rw [hbytes, List.length_take, List.length_drop]
  have hmore : received ++ bytes = job.archive.take (fileOffset + bytes.length) := by
    rw [hreceived, List.take_add, hbytes, List.length_take, ← List.take_eq_take_min]
  split_ifs with hlast
  · refine ⟨?_, Or.inr ⟨path, rfl, FileSystem.apart_unlink fs path⟩, Or.inl rfl⟩
    refine hmore.trans (List.take_of_length_le ?_)
    rcases hlast with hnone | hlast
    · have hzero : bytes.length = 0 := by rw [hnone]; rfl
      have hchunk : 0 < FILE_CHUNK_SIZE := by decide
      omega
    · omega
  · exact ⟨⟨⟨hname, hdata⟩, hend, hmore⟩, Or.inl rfl, Or.inr rfl⟩

end

/-- In every phase the client has the beginning of its archive. -/
theorem Holds.bytes {fs : FileSystem Str} {job : Job} {c : Client} (h : Holds fs job c) :
    c.received <+: job.archive := by
  obtain ⟨phase, received⟩ := c
  cases phase with
  | idle | zipFailed => exact (show received = [] from h) ▸ List.nil_prefix
  | writing | queued => exact (show received = [] from h.2.2) ▸ List.nil_prefix
  | created => exact (show received = [] from h.2) ▸ List.nil_prefix
  | streaming path file fileOffset =>
    exact (show received = job.archive.take fileOffset from h.2.2) ▸ List.take_prefix _ _
  | done => exact (show received = job.archive from h) ▸ List.prefix_refl _
  | gone => exact h
  | statFailed | openFailed => exact h.elim

/-- **A step of a request** keeps what it relies on, and works on its own path. -/
theorem act_safe {fs : FileSystem Str} {job : Job} {c : Client} (h : Holds fs job c) (a : Action) :
    Safe localtime job fs c a := by
  obtain ⟨phase, received⟩ := c
  -- a step that does not fit the phase changes nothing
  cases a with
  | start now opened =>
    cases phase with
    | idle => exact safe_start h now opened
    | _ => exact ⟨h, Or.inl rfl, Or.inr rfl⟩
  | write n =>
    cases phase with
    | writing => exact safe_write h n
    | _ => exact ⟨h, Or.inl rfl, Or.inr rfl⟩
  | finish =>
    cases phase with
    | writing => exact safe_finish h
    | _ => exact ⟨h, Or.inl rfl, Or.inr rfl⟩
  | stat =>
    cases phase with
    | created => exact safe_stat h
    | _ => exact ⟨h, Or.inl rfl, Or.inr rfl⟩
  | openFile =>
    cases phase with
    | queued => exact safe_openFile h
    | _ => exact ⟨h, Or.inl rfl, Or.inr rfl⟩
  | send n =>
    cases phase with
    | streaming => exact safe_send h n
    | _ => exact ⟨h, Or.inl rfl, Or.inr rfl⟩
  | sendFails =>
    cases phase with
    | streaming path =>
      exact ⟨h.bytes, Or.inr ⟨path, rfl, FileSystem.apart_unlink fs path⟩, Or.inl rfl⟩
    | _ => exact ⟨h, Or.inl rfl, Or.inr rfl⟩
  | drop =>
    cases phase with
    | queued => exact ⟨h.bytes, Or.inl rfl, Or.inl rfl⟩
    | streaming => exact ⟨h.bytes, Or.inl rfl, Or.inl rfl⟩
    | _ => exact ⟨h, Or.inl rfl, Or.inr rfl⟩

/-! ## All requests -/

/-- Every request holds, and no two in flight have one path. -/
structure Inv (jobs : ℕ → Job) (s : Sys) : Prop where
  holds : ∀ r, Holds s.files (jobs r) (s.client r)
  distinct : ∀ r r' p, r ≠ r' → (s.client r).phase.path = some p → (s.client r').phase.path ≠ some p

theorem inv_init (jobs : ℕ → Job) (files : FileSystem Str) : Inv jobs (init files) where
  holds _ := rfl
  distinct _ _ _ _ h := absurd h (by simp [init, Phase.path])

/-- In a fresh step no other request has the path that the step works on. -/
theorem target_free {jobs : ℕ → Job} {s : Sys} (h : Inv jobs s) {r : ℕ} {a : Action}
    (hfresh : Fresh localtime s (r, a)) {p : Str} (hp : target localtime a (s.client r).phase = some p)
    {r' : ℕ} (hr : r' ≠ r) : (s.client r').phase.path ≠ some p := by
  have hold : (s.client r).phase.path = some p → (s.client r').phase.path ≠ some p :=
    h.distinct r r' p (Ne.symm hr)
  cases a with
  | start now opened =>
    cases hphase : (s.client r).phase with
    | idle =>
      rw [hphase] at hp
      obtain rfl := Option.some.inj hp
      exact hfresh hphase r' hr
    | _ =>
      rw [hphase] at hp hold
      exact hold hp
  | _ => exact hold hp

/-- A path in flight after a step is the one the step works on. -/
theorem target_of_path {fs : FileSystem Str} {job : Job} {c : Client} {a : Action} (h : Holds fs job c) {p : Str}
    (hp : (act localtime job a (fs, c)).2.phase.path = some p) : target localtime a c.phase = some p := by
  rcases (act_safe h a).2.2 with hnone | hsame
  · rw [hp] at hnone
    cases hnone
  · rw [← hsame, hp]

theorem holds_step {jobs : ℕ → Job} {s : Sys} {r : ℕ} {a : Action} (h : Inv jobs s)
    (hfresh : Fresh localtime s (r, a)) (r' : ℕ) :
    Holds (step localtime jobs s (r, a)).files (jobs r') ((step localtime jobs s (r, a)).client r') := by
  obtain ⟨hown, hfiles, -⟩ : Safe localtime (jobs r) s.files (s.client r) a := act_safe (h.holds r) a
  unfold step
  dsimp only
  by_cases hr : r' = r
  · subst hr
    rw [Function.update_self]
    exact hown
  · rw [Function.update_of_ne hr]
    rcases hfiles with hsame | ⟨p, hp, hapart⟩
    · rw [hsame]
      exact h.holds r'
    · exact (h.holds r').apart (target_free h hfresh hp hr) hapart

theorem distinct_step {jobs : ℕ → Job} {s : Sys} {r : ℕ} {a : Action} (h : Inv jobs s)
    (hfresh : Fresh localtime s (r, a)) {r₁ r₂ : ℕ} {p : Str} (hne : r₁ ≠ r₂)
    (h₁ : ((step localtime jobs s (r, a)).client r₁).phase.path = some p) :
    ((step localtime jobs s (r, a)).client r₂).phase.path ≠ some p := by
  unfold step at h₁ ⊢
  dsimp only at h₁ ⊢
  by_cases hr₁ : r₁ = r
  · subst hr₁
    rw [Function.update_self] at h₁
    rw [Function.update_of_ne (Ne.symm hne)]
    exact target_free h hfresh (target_of_path (h.holds r₁) h₁) (Ne.symm hne)
  · rw [Function.update_of_ne hr₁] at h₁
    by_cases hr₂ : r₂ = r
    · subst hr₂
      rw [Function.update_self]
      exact fun h₂ => target_free h hfresh (target_of_path (h.holds r₂) h₂) hr₁ h₁
    · rw [Function.update_of_ne hr₂]
      exact h.distinct r₁ r₂ p hne h₁

theorem inv_step {jobs : ℕ → Job} {s : Sys} {e : ℕ × Action} (h : Inv jobs s)
    (hfresh : Fresh localtime s e) : Inv jobs (step localtime jobs s e) where
  holds := holds_step h hfresh
  distinct _ _ _ := distinct_step h hfresh

theorem Inv.undisturbed {jobs : ℕ → Job} {s : Sys} (h : Inv jobs s) : Undisturbed jobs s where
  bytes r := (h.holds r).bytes
  complete r hdone := by
    have := h.holds r
    rw [Holds, hdone] at this
    exact this
  found r := by
    have hr := h.holds r
    refine ⟨fun hphase => ?_, fun hphase => ?_⟩ <;>
    · rw [Holds, hphase] at hr
      exact hr

/-- **No request disturbs another** in a run in which every request starts at a path of its own. -/
theorem batchDownload_undisturbed (localtime : ℤ → Tm) (jobs : ℕ → Job) (files : FileSystem Str)
    (run : List (ℕ × Action)) (h : Run.Each (step localtime jobs) (Fresh localtime) (init files) run) :
    Undisturbed jobs (Run.exec (step localtime jobs) (init files) run) :=
  (h.inv (fun _ _ hinv hfresh => inv_step hinv hfresh) (inv_init jobs files)).undisturbed

/-! ## Two requests -/

/-- UTC on the first of January 2026. -/
def newYear (now : ℤ) : Tm :=
  let s := (now - 1767225600).toNat
  ⟨s / 3600, s % 3600 / 60, s % 60, 126, 0, 1⟩

/-- Two songs each, in empty files. -/
def twoJobs (r : ℕ) : Job where
  entries := if r = 0 then [⟨lit "a.m4a", lit "1"⟩, ⟨lit "b.m4a", lit "2"⟩]
    else [⟨lit "c.m4a", lit "3"⟩, ⟨lit "d.m4a", lit "4"⟩]
  files _ := some []
  deflate _ _ := none
  time := newYear 1767268800
  date := newYear 1767268800

/-- A request on the worker thread. -/
def prepare (r : ℕ) (now : ℤ) : List (ℕ × Action) := [(r, .start now true), (r, .finish), (r, .stat)]

/-- A second apart, both clients have their archives. -/
theorem second_apart :
    Undisturbed twoJobs (Run.exec (step newYear twoJobs) (init .empty)
      (prepare 0 1767268800 ++ prepare 1 1767268801 ++
        [(0, .openFile), (0, .send 999), (1, .openFile), (1, .send 999)])) := by
  refine batchDownload_undisturbed newYear twoJobs .empty _
    ⟨fun _ r hr => ?_, trivial, trivial, fun _ r hr => ?_, trivial, trivial, trivial, trivial, trivial,
      trivial, trivial⟩
  · simp [init, Phase.path]
  · by_cases hzero : r = 0
    · subst hzero
      decide +kernel
    · simp [step, init, hzero, Phase.path]

/-- In one second, the first client has the other's archive, and the second one none. -/
theorem same_second :
    let s := Run.exec (step newYear twoJobs) (init .empty)
      (prepare 0 1767268800 ++ prepare 1 1767268800 ++ [(0, .openFile), (0, .send 999), (1, .openFile)])
    s.client 0 = ⟨.done, (twoJobs 1).archive⟩ ∧ (twoJobs 1).archive ≠ (twoJobs 0).archive ∧
      (s.client 1).phase = .openFailed ∧ ¬ Undisturbed twoJobs s := by
  intro s
  have hphase : (s.client 1).phase = .openFailed := by decide +kernel
  exact ⟨by decide +kernel, by decide +kernel, hphase, fun h => (h.found 1).2 hphase⟩

end NarMusic.BatchDownload
