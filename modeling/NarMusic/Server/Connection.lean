/-
  One connection of the server: reading requests, sending responses, streaming
  files (`core/epoll_server.cpp`).

  A handler is a function of the connection and of the results of the system
  calls it makes.  Its outcome is the connection, or `none` when it has been
  erased, and the effects of the calls in order.  A list of results that runs out
  means `EAGAIN`.

  Ghost fields, never read by the handlers: `peer` numbers the accepted
  connection, and a `Tag` follows each response from the request to the socket.
-/
import NarMusic.Http.Response

namespace NarMusic

open Cxx

/-- A descriptor number. -/
abbrev Fd := ℕ

def FILE_CHUNK_SIZE : ℕ := 256 * 1024

def MAX_REQUEST_SIZE : ℕ := 10 * 1024 * 1024

/-- The number of a response, and of the accepted connection whose bytes it answers. -/
structure Tag where
  serial : ℕ
  origin : ℕ
  deriving DecidableEq, Repr

structure Connection where
  peer : ℕ
  readBuffer : Str := []
  writeBuffer : Str := []
  written : ℕ := 0
  lastActive : ℕ := 0
  isFileStream : Bool := false
  fileOffset : ℤ := 0
  fileEnd : ℤ := 0
  /-- `-1` is `none`. -/
  fileFd : Option Fd := none
  cleanupPath : Str := []
  writeTag : Tag := ⟨0, 0⟩
  streamTag : Tag := ⟨0, 0⟩

/-- What the calls of a handler did, on the connection's own descriptor unless another is named. -/
inductive Effect where
  | received (data : Str)
  /-- `sendResponse` put the bytes it could not send into `writeBuffer`. -/
  | stored (tag : Tag) (rem : Str)
  | sent (tag : Tag) (data : Str)
  | opened (fileFd : Fd)
  | seeked (fileFd : Fd) (offset : ℤ)
  | sentFile (tag : Tag) (fileFd : Fd) (n : ℕ)
  | closedFile (fileFd : Fd)
  | unlinked (tag : Tag) (path : Str)
  | closed
  deriving DecidableEq

structure Outcome where
  conn : Option Connection
  effects : List Effect

/-- The result of `send` or `sendfile`: `wrote n` accepts `n` of the bytes offered (all of them
    if `n` is larger), `failed` is any error but `EAGAIN`. -/
inductive IoResult where
  | wrote (n : ℕ)
  | again
  | failed
  deriving DecidableEq

/-- The result of `read`; no bytes is the end of the stream. -/
inductive ReadResult where
  | bytes (data : Str)
  | again
  | failed

/-- How a loop of calls ends. -/
inductive LoopEnd where
  | done
  | again
  | failed
  deriving DecidableEq

/-- The bytes the calls accept before one of them refuses. -/
def granted : List IoResult → ℕ
  | .wrote (n + 1) :: outs => n + 1 + granted outs
  | _ => 0

/-- How the first refusal ends a loop: `EAGAIN`, or an error. -/
def refusal : List IoResult → LoopEnd
  | .wrote (_ + 1) :: outs => refusal outs
  | .wrote 0 :: _ => .failed
  | .failed :: _ => .failed
  | _ => .again

/-- The text `processPendingWrites` sends of a response. -/
def Response.text (resp : Response) : Str :=
  if resp.isFileStream then resp.serializeHeaders else resp.serialize

namespace Connection

/-! ## Sending -/

/-- The `send` loop on `size` bytes: how many are sent, and how it ends. -/
def sendLoop : ℕ → List IoResult → ℕ × LoopEnd
  | 0, _ => (0, .done)
  | _ + 1, [] => (0, .again)
  | _ + 1, .again :: _ => (0, .again)
  | _ + 1, .failed :: _ => (0, .failed)
  | _ + 1, .wrote 0 :: _ => (0, .failed)
  | size + 1, .wrote (n + 1) :: outs =>
    let r := sendLoop (size - n) outs
    (min (n + 1) (size + 1) + r.1, r.2)

theorem sendLoop_eq (size : ℕ) (outs : List IoResult) :
    sendLoop size outs =
      (min size (granted outs), if size ≤ granted outs then .done else refusal outs) := by
  fun_induction sendLoop size outs with
  | case1 => simp
  | case6 size n outs r ih =>
    simp only [r, ih, granted, refusal, Prod.mk.injEq]
    constructor
    · omega
    · congr 1
      exact propext (by omega)
  | _ => simp [granted, refusal]

theorem refusal_ne_done (outs : List IoResult) : refusal outs ≠ .done := by
  fun_induction refusal outs <;> simp_all

theorem sendLoop_le (size : ℕ) (outs : List IoResult) : (sendLoop size outs).1 ≤ size := by
  rw [sendLoop_eq]
  exact min_le_left _ _

theorem sendLoop_le_granted (size : ℕ) (outs : List IoResult) :
    (sendLoop size outs).1 ≤ granted outs := by
  rw [sendLoop_eq]
  exact min_le_right _ _

theorem sendLoop_done (size : ℕ) (outs : List IoResult) (h : (sendLoop size outs).2 = .done) :
    (sendLoop size outs).1 = size := by
  rw [sendLoop_eq] at h ⊢
  by_cases hacc : size ≤ granted outs
  · exact min_eq_left hacc
  · exact absurd ((if_neg hacc).symm.trans h) (refusal_ne_done outs)

def sendResponse (c : Connection) (tag : Tag) (response : Str) (outs : List IoResult) :
    Connection × List Effect :=
  if response.length ≤ 65536 then
    let r := sendLoop response.length outs
    if r.2 = .again then
      ({ c with writeBuffer := response.drop r.1, written := 0, writeTag := tag },
        [.sent tag (response.take r.1), .stored tag (response.drop r.1)])
    else (c, [.sent tag (response.take r.1)])
  else
    ({ c with writeBuffer := response, written := 0, writeTag := tag }, [.stored tag response])

/-- The `sendfile` loop from `offset` to `fileEnd`: the sizes sent, the offset reached, and how
    it ends. -/
def chunkLoop (fileEnd : ℤ) : ℤ → List IoResult → List ℕ × ℤ × LoopEnd
  | offset, outs =>
    if offset ≤ fileEnd then
      match outs with
      | [] => ([], offset, .again)
      | .again :: _ => ([], offset, .again)
      | .failed :: _ => ([], offset, .failed)
      | .wrote n :: outs =>
        let remaining := fileEnd - offset + 1
        let toSend := if FILE_CHUNK_SIZE < remaining then FILE_CHUNK_SIZE else remaining.toNat
        if min n toSend = 0 then ([], offset, .done)
        else
          let r := chunkLoop fileEnd (offset + (min n toSend : ℕ)) outs
          (min n toSend :: r.1, r.2)
    else ([], offset, .done)

/-- `if (!conn.cleanupPath.empty()) unlink(…)`. -/
def unlinkCleanup (c : Connection) : List Effect :=
  if c.cleanupPath = [] then [] else [.unlinked c.streamTag c.cleanupPath]

def sendFileChunked (c : Connection) (outs : List IoResult) : Outcome :=
  match c.fileFd with
  | none => ⟨some { c with isFileStream := false }, []⟩
  | some fileFd =>
    let r := chunkLoop c.fileEnd c.fileOffset outs
    let chunks := r.1.map (.sentFile c.streamTag fileFd)
    match r.2.2 with
    | .again => ⟨some { c with fileOffset := r.2.1 }, chunks⟩
    | .failed => ⟨none, chunks ++ .closedFile fileFd :: (c.unlinkCleanup ++ [.closed])⟩
    | .done =>
      ⟨some { c with fileOffset := r.2.1, fileFd := none, isFileStream := false, cleanupPath := [] },
        chunks ++ .closedFile fileFd :: c.unlinkCleanup⟩

/-- The effects of the `sendfile` calls. -/
def chunks (c : Connection) (fileFd : Fd) (outs : List IoResult) : List Effect :=
  (chunkLoop c.fileEnd c.fileOffset outs).1.map (.sentFile c.streamTag fileFd)

/-- What `sendFileChunked` can do: there is no file; `EAGAIN`; an error; the end of the range, or
    of the file. -/
theorem sendFileChunked_cases (c : Connection) (outs : List IoResult) :
    (c.fileFd = none ∧ c.sendFileChunked outs = ⟨some { c with isFileStream := false }, []⟩) ∨
    ∃ fileFd, c.fileFd = some fileFd ∧
      ((chunkLoop c.fileEnd c.fileOffset outs).2.2 = .again ∧
        c.sendFileChunked outs =
          ⟨some { c with fileOffset := (chunkLoop c.fileEnd c.fileOffset outs).2.1 },
            c.chunks fileFd outs⟩ ∨
      (chunkLoop c.fileEnd c.fileOffset outs).2.2 = .failed ∧
        c.sendFileChunked outs =
          ⟨none, c.chunks fileFd outs ++ .closedFile fileFd :: (c.unlinkCleanup ++ [.closed])⟩ ∨
      (chunkLoop c.fileEnd c.fileOffset outs).2.2 = .done ∧
        c.sendFileChunked outs =
          ⟨some { c with
            fileOffset := (chunkLoop c.fileEnd c.fileOffset outs).2.1, fileFd := none,
            isFileStream := false, cleanupPath := [] },
            c.chunks fileFd outs ++ .closedFile fileFd :: c.unlinkCleanup⟩) := by
  cases hf : c.fileFd with
  | none => exact Or.inl ⟨rfl, by simp only [sendFileChunked, hf]⟩
  | some fileFd =>
    refine Or.inr ⟨fileFd, rfl, ?_⟩
    rcases hend : (chunkLoop c.fileEnd c.fileOffset outs).2.2 with _ | _ | _
    · exact Or.inr (Or.inr ⟨rfl, by simp only [sendFileChunked, hf, hend, chunks]⟩)
    · exact Or.inl ⟨rfl, by simp only [sendFileChunked, hf, hend, chunks]⟩
    · exact Or.inr (Or.inl ⟨rfl, by simp only [sendFileChunked, hf, hend, chunks]⟩)

def handleWrite (c : Connection) (outs : List IoResult) : Outcome :=
  if c.isFileStream ∧ c.fileFd ≠ none then c.sendFileChunked outs
  else
    let rest := c.writeBuffer.drop c.written
    let r := sendLoop rest.length outs
    match r.2 with
    | .done => ⟨some { c with writeBuffer := [], written := 0 }, [.sent c.writeTag (rest.take r.1)]⟩
    | .again => ⟨some { c with written := c.written + r.1 }, [.sent c.writeTag (rest.take r.1)]⟩
    | .failed => ⟨none, [.sent c.writeTag (rest.take r.1), .closed]⟩

/-- A file is being streamed. -/
def Streaming (c : Connection) : Prop := c.isFileStream = true ∧ c.fileFd ≠ none

instance (c : Connection) : Decidable c.Streaming := instDecidableAnd

/-- What `handleWrite` can do: continue the file, or send more of `writeBuffer` (all of it, up to
    `EAGAIN`, or up to an error). -/
theorem handleWrite_cases (c : Connection) (outs : List IoResult) :
    (c.Streaming ∧ c.handleWrite outs = c.sendFileChunked outs) ∨
    ¬ c.Streaming ∧ ∃ data rest, c.writeBuffer.drop c.written = data ++ rest ∧
      data.length ≤ granted outs ∧
      (rest = [] ∧ c.handleWrite outs =
          ⟨some { c with writeBuffer := [], written := 0 }, [.sent c.writeTag data]⟩ ∨
        c.handleWrite outs =
          ⟨some { c with written := c.written + data.length }, [.sent c.writeTag data]⟩ ∨
        c.handleWrite outs = ⟨none, [.sent c.writeTag data, .closed]⟩) := by
  by_cases hs : c.Streaming
  · exact Or.inl ⟨hs, if_pos hs⟩
  · have hw : c.handleWrite outs = _ := if_neg hs
    simp only at hw
    generalize c.writeBuffer.drop c.written = rest at hw ⊢
    have hle := sendLoop_le rest.length outs
    have hacc := sendLoop_le_granted rest.length outs
    have hdone := sendLoop_done rest.length outs
    generalize sendLoop rest.length outs = r at hw hle hacc hdone
    obtain ⟨n, e⟩ := r
    refine Or.inr ⟨hs, rest.take n, rest.drop n, (List.take_append_drop n rest).symm,
      (List.length_take_le n rest).trans hacc, ?_⟩
    cases e with
    | done => exact Or.inl ⟨List.drop_eq_nil_of_le (hdone rfl).ge, hw⟩
    | again =>
      refine Or.inr (Or.inl ?_)
      rw [hw, List.length_take, min_eq_left hle]
    | failed => exact Or.inr (Or.inr hw)

/-- The results of the calls made for one pending response: of `send`, of `open`, of `sendfile`. -/
structure FlushIo where
  outs : List IoResult
  opened : Option Fd
  fileOuts : List IoResult

/-- The connection once the file of a response has been opened. -/
def startStream (c : Connection) (tag : Tag) (info : FileStreamInfo) (fileFd : Fd) : Connection :=
  { c with
    isFileStream := true, fileFd := some fileFd, fileOffset := info.rangeStart,
    fileEnd := info.rangeEnd, cleanupPath := info.cleanupPath, writeBuffer := [], written := 0,
    streamTag := tag }

/-- `lseek` to the start of the range. -/
def seekStart (info : FileStreamInfo) (fileFd : Fd) : List Effect :=
  if 0 < info.rangeStart then [.seeked fileFd info.rangeStart] else []

/-- One round of `processPendingWrites`, on a connection that is still there. -/
def deliver (c : Connection) (tag : Tag) (resp : Response) (io : FlushIo) : Outcome :=
  if resp.isFileStream then
    let info := resp.fileStreamInfo
    let r := c.sendResponse tag resp.serializeHeaders io.outs
    match io.opened with
    | none => ⟨none, r.2 ++ [.closed]⟩
    | some fileFd =>
      let o := (r.1.startStream tag info fileFd).sendFileChunked io.fileOuts
      ⟨o.conn, r.2 ++ .opened fileFd :: (seekStart info fileFd ++ o.effects)⟩
  else
    let r := c.sendResponse tag resp.serialize io.outs
    ⟨some r.1, r.2⟩

theorem deliver_text (c : Connection) (tag : Tag) {resp : Response} (io : FlushIo)
    (h : ¬ resp.isFileStream) :
    c.deliver tag resp io =
      ⟨some (c.sendResponse tag resp.text io.outs).1, (c.sendResponse tag resp.text io.outs).2⟩ := by
  simp only [deliver, Response.text, if_neg h]

theorem deliver_unopened (c : Connection) (tag : Tag) {resp : Response} {io : FlushIo}
    (h : resp.isFileStream) (ho : io.opened = none) :
    c.deliver tag resp io = ⟨none, (c.sendResponse tag resp.text io.outs).2 ++ [.closed]⟩ := by
  simp only [deliver, Response.text, if_pos h, ho]

theorem deliver_opened (c : Connection) (tag : Tag) {resp : Response} {io : FlushIo} {fileFd : Fd}
    (h : resp.isFileStream) (ho : io.opened = some fileFd) :
    c.deliver tag resp io =
      let o := ((c.sendResponse tag resp.text io.outs).1.startStream tag resp.fileStreamInfo
        fileFd).sendFileChunked io.fileOuts
      ⟨o.conn, (c.sendResponse tag resp.text io.outs).2 ++
        .opened fileFd :: (seekStart resp.fileStreamInfo fileFd ++ o.effects)⟩ := by
  simp only [deliver, Response.text, if_pos h, ho]

/-! ## Reading -/

/-- The `read` loop: the bytes read, and how it ends (`done` is the end of the stream). -/
def readLoop : List ReadResult → Str × LoopEnd
  | [] => ([], .again)
  | .again :: _ => ([], .again)
  | .failed :: _ => ([], .failed)
  | .bytes [] :: _ => ([], .done)
  | .bytes (b :: data) :: reads =>
    let r := readLoop reads
    (b :: (data ++ r.1), r.2)

/-- `handleRead`, and whether it detaches a worker task.  An exception of `isCompleteRequest`
    leaves it. -/
def handleRead (c : Connection) (now : ℕ) (reads : List ReadResult) : Except Exn (Outcome × Bool) :=
  let r := readLoop reads
  match r.2 with
  | .done | .failed => .ok (⟨none, [.received r.1, .closed]⟩, false)
  | .again =>
    if r.1 = [] then .ok (⟨some c, []⟩, false)
    else if MAX_REQUEST_SIZE < c.readBuffer.length + r.1.length then
      .ok (⟨none, [.received r.1, .closed]⟩, false)
    else
      let c := { c with lastActive := now, readBuffer := c.readBuffer ++ r.1 }
      (Request.isCompleteRequest c.readBuffer).map fun complete =>
        (⟨some c, [.received r.1]⟩, complete)

/-- The peer has closed, the read failed, or the request is too large. -/
def Ends (c : Connection) (reads : List ReadResult) : Prop :=
  (readLoop reads).2 ≠ .again ∨
    (readLoop reads).1 ≠ [] ∧ MAX_REQUEST_SIZE < c.readBuffer.length + (readLoop reads).1.length

instance (c : Connection) (reads : List ReadResult) : Decidable (c.Ends reads) := instDecidableOr

/-- What `handleRead` can do: close, find nothing, or append what has been read. -/
theorem handleRead_cases {c : Connection} {now : ℕ} {reads : List ReadResult} {o : Outcome}
    {detach : Bool} (h : c.handleRead now reads = .ok (o, detach)) :
    (c.Ends reads ∧ o = ⟨none, [.received (readLoop reads).1, .closed]⟩ ∧ detach = false) ∨
    (o = ⟨some c, []⟩ ∧ detach = false) ∨
    ((readLoop reads).1 ≠ [] ∧
      o = ⟨some { c with lastActive := now, readBuffer := c.readBuffer ++ (readLoop reads).1 },
        [.received (readLoop reads).1]⟩ ∧
      Request.isCompleteRequest (c.readBuffer ++ (readLoop reads).1) = .ok detach) := by
  unfold handleRead at h
  simp only at h
  split at h
  case h_3 hend =>
    split_ifs at h with hdata hsize
    · obtain ⟨rfl, rfl⟩ := Prod.mk.inj (Except.ok.inj h)
      exact Or.inr (Or.inl ⟨rfl, rfl⟩)
    · obtain ⟨rfl, rfl⟩ := Prod.mk.inj (Except.ok.inj h)
      exact Or.inl ⟨Or.inr ⟨hdata, hsize⟩, rfl, rfl⟩
    · cases hc : Request.isCompleteRequest (c.readBuffer ++ (readLoop reads).1) with
      | error e =>
        rw [hc] at h
        cases h
      | ok complete =>
        rw [hc] at h
        obtain ⟨rfl, rfl⟩ := Prod.mk.inj (Except.ok.inj h)
        exact Or.inr (Or.inr ⟨hdata, rfl, rfl⟩)
  all_goals
    obtain ⟨rfl, rfl⟩ := Prod.mk.inj (Except.ok.inj h)
    exact Or.inl ⟨Or.inl (by simp [*]), rfl, rfl⟩

/-- A worker moves the buffer out: `taskData = std::move(readBuffer)`. -/
def moveBuffer (c : Connection) : Outcome := ⟨some { c with readBuffer := [] }, []⟩

/-! ## Closing -/

/-- `if (conn.fileFd >= 0) close(conn.fileFd)`. -/
def closeFile (c : Connection) : List Effect :=
  match c.fileFd with
  | none => []
  | some fileFd => [.closedFile fileFd]

/-- The connection is dropped: on `EPOLLERR` or `EPOLLHUP`, by `cleanupTimeouts` and by `stop`. -/
def drop (c : Connection) : Outcome := ⟨none, c.closeFile ++ [.closed]⟩

/-- `elapsed > config_.connection_timeout`, in whole seconds of a clock in nanoseconds. -/
def expired (connectionTimeout : ℤ) (now : ℕ) (c : Connection) : Bool :=
  connectionTimeout < ((now - c.lastActive) / 10 ^ 9 : ℕ)

end Connection

/-! ## The worker task -/

/-- What a worker task does with the bytes it has taken. -/
structure Answer (σ : Type) where
  dispatched : Option Request
  response : Option Response
  app : σ

/-- `Response::error(400, "Bad Request", "bad_request", "Invalid request")`. -/
def badRequest : Except Exn Response :=
  Response.error 400 (lit "Bad Request") (lit "bad_request") (lit "Invalid request")

/-- The worker task behind the lock.  The pool drops an exception, and with it the response. -/
def answer {σ : Type} (dispatch : Request → σ → Except Exn Response × σ) (taskData : Str) (app : σ) :
    Answer σ :=
  match Request.parse taskData with
  | .error _ => ⟨none, none, app⟩
  | .ok none => ⟨none, badRequest.toOption, app⟩
  | .ok (some req) =>
    let r := dispatch req app
    ⟨some req, r.1.toOption, r.2⟩

end NarMusic
