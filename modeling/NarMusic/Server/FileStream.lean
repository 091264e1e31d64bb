/-
  The bytes of a file body.

  The kernel keeps a position for each descriptor: `lseek` sets it, and `sendfile`
  without an offset reads from it and advances it.  `fileBytes` is what a trace
  has sent from a file, and `fileOffset` of the connection follows the position
  through every suspension, so that the body is the range of the response
  (`file_body_exact`).
-/
import NarMusic.Server.Output

namespace NarMusic

open Cxx

/-! ## Positions of descriptors -/

/-- The positions after an effect. -/
def seek (pos : Fd → ℕ) : Effect → Fd → ℕ
  | .opened fileFd => Function.update pos fileFd 0
  | .seeked fileFd offset => Function.update pos fileFd offset.toNat
  | .sentFile _ fileFd n => Function.update pos fileFd (pos fileFd + n)
  | _ => pos

/-- What an effect sends of a file with this content. -/
def sentBytes (content : Str) (pos : Fd → ℕ) : Effect → Str
  | .sentFile _ fileFd n => (content.drop (pos fileFd)).take n
  | _ => []

def fileBytes (content : Str) : (Fd → ℕ) → List Effect → Str
  | _, [] => []
  | pos, e :: es => sentBytes content pos e ++ fileBytes content (seek pos e) es

section
variable {content : Str} {pos : Fd → ℕ}

theorem fileBytes_append (es es' : List Effect) :
    fileBytes content pos (es ++ es') =
      fileBytes content pos es ++ fileBytes content (es.foldl seek pos) es' := by
  induction es generalizing pos with
  | nil => rfl
  | cons e es ih => simp only [List.cons_append, fileBytes, List.foldl_cons, ih, List.append_assoc]

/-- What is sent only grows. -/
theorem fileBytes_mono {es es' : List Effect} (h : es <+: es') :
    fileBytes content pos es <+: fileBytes content pos es' := by
  obtain ⟨t, rfl⟩ := h
  rw [fileBytes_append]
  exact List.prefix_append _ _

/-- Calls of `sendfile` on one descriptor send what one call for their sum would. -/
theorem fileBytes_chunks (tag : Tag) (fileFd : Fd) (sizes : List ℕ) :
    fileBytes content pos (sizes.map (.sentFile tag fileFd)) =
      (content.drop (pos fileFd)).take sizes.sum := by
  induction sizes generalizing pos with
  | nil => simp [fileBytes]
  | cons n sizes ih =>
    simp only [List.map_cons, fileBytes, sentBytes, seek, ih, Function.update_self, List.sum_cons]
    rw [List.take_add, List.drop_drop]

theorem seek_chunks (tag : Tag) (fileFd : Fd) (sizes : List ℕ) :
    ((sizes.map (Effect.sentFile tag fileFd)).foldl seek pos) fileFd = pos fileFd + sizes.sum := by
  induction sizes generalizing pos with
  | nil => rfl
  | cons n sizes ih =>
    simp only [List.map_cons, List.foldl_cons, ih, seek, Function.update_self, List.sum_cons]
    omega

/-- Effects that are not on a file. -/
def OffFile : Effect → Prop
  | .opened _ | .seeked .. | .sentFile .. => False
  | _ => True

theorem fileBytes_offFile (content : Str) (pos : Fd → ℕ) {es : List Effect} (h : ∀ e ∈ es, OffFile e) :
    fileBytes content pos es = [] ∧ es.foldl seek pos = pos := by
  induction es generalizing pos with
  | nil => exact ⟨rfl, rfl⟩
  | cons e es ih =>
    obtain ⟨he, hes⟩ := List.forall_mem_cons.1 h
    cases e <;> first | exact ih _ hes | exact he.elim

end

namespace Connection

/-! ## The sendfile loop -/

/-- The loop sends from `offset` up to the offset it reaches, at most `fileEnd + 1`, and reaches
    that unless a call refuses. -/
theorem chunkLoop_spec {fileEnd offset : ℤ} {outs : List IoResult} (hle : offset ≤ fileEnd + 1)
    (houts : .wrote 0 ∉ outs) :
    offset + (chunkLoop fileEnd offset outs).1.sum = (chunkLoop fileEnd offset outs).2.1 ∧
      (chunkLoop fileEnd offset outs).2.1 ≤ fileEnd + 1 ∧
      ((chunkLoop fileEnd offset outs).2.2 = .done →
        (chunkLoop fileEnd offset outs).2.1 = fileEnd + 1) := by
  induction outs generalizing offset with
  | nil =>
    unfold chunkLoop
    split_ifs <;> simp <;> omega
  | cons r outs ih =>
    rw [List.mem_cons, not_or] at houts
    unfold chunkLoop
    by_cases hend : offset ≤ fileEnd
    · rw [if_pos hend]
      cases r with
      | wrote n =>
        simp only
        generalize hsend : (if (FILE_CHUNK_SIZE : ℤ) < fileEnd - offset + 1 then FILE_CHUNK_SIZE
          else (fileEnd - offset + 1).toNat) = toSend
        have htoSend : 0 < toSend ∧ toSend ≤ fileEnd - offset + 1 := by
          rw [← hsend]
          unfold FILE_CHUNK_SIZE
          split_ifs <;> omega
        have hn : n ≠ 0 := fun h => houts.1 (h ▸ rfl)
        rw [if_neg (by omega)]
        obtain ⟨h1, h2, h3⟩ := @ih (offset + (min n toSend : ℕ)) (by omega) houts.2
        refine ⟨?_, h2, h3⟩
        simp only [List.sum_cons]
        omega
      | again => simpa using hle
      | failed => simpa using hle
    · rw [if_neg hend]
      simp
      omega

theorem sendResponse_offFile (c : Connection) (tag : Tag) (text : Str) (outs : List IoResult) :
    ∀ e ∈ (c.sendResponse tag text outs).2, OffFile e := by
  unfold sendResponse
  split_ifs
  · simp only
    split_ifs <;> simp [OffFile]
  · simp [OffFile]

theorem unlinkCleanup_offFile (c : Connection) : ∀ e ∈ c.unlinkCleanup, OffFile e := by
  unfold unlinkCleanup
  split_ifs <;> simp [OffFile]

end Connection

/-! ## The body of one response -/

/-- The number of bytes in the range of a response. -/
def FileStreamInfo.count (info : FileStreamInfo) : ℕ := (info.rangeEnd - info.rangeStart + 1).toNat

/-- `file[rangeStart..rangeEnd]`. -/
def FileStreamInfo.range (info : FileStreamInfo) (content : Str) : Str :=
  (content.drop info.rangeStart.toNat).take info.count

/-- A range of a file with this content. -/
structure FileStreamInfo.Valid (info : FileStreamInfo) (content : Str) : Prop where
  size : info.fileSize = content.length
  start_nonneg : 0 ≤ info.rangeStart
  start_le : info.rangeStart ≤ info.rangeEnd
  end_lt : info.rangeEnd < info.fileSize

namespace Link

/-- What has been sent of a file, all descriptors being new. -/
def body (content : Str) (s : Link) : Str := fileBytes content (fun _ => 0) s.trace

/-- The position of a descriptor. -/
def position (s : Link) (fileFd : Fd) : ℕ := (s.trace.foldl seek fun _ => 0) fileFd

/-- Between two events of a stream, `k` bytes of the range have been sent: the stream waits at
    that position, or the connection is gone, or all of them have been sent. -/
def Sent (content : Str) (info : FileStreamInfo) (fileFd : Fd) (s : Link) : Prop :=
  ∃ k ≤ info.count, s.body content = (content.drop info.rangeStart.toNat).take k ∧
    ∀ c, s.conn = some c → c.writeBuffer.drop c.written = [] ∧
      (c.isFileStream = true ∧ c.fileFd = some fileFd ∧ c.fileEnd = info.rangeEnd ∧
          c.fileOffset = info.rangeStart + k ∧ s.position fileFd = info.rangeStart.toNat + k ∨
        c.fileFd = none ∧ k = info.count)

variable {content : Str} {info : FileStreamInfo} {fileFd : Fd}

/-- The calls of `sendfile` take the body from `k` bytes to `k + n`. -/
theorem body_chunks {trace es : List Effect} {k : ℕ} {tag : Tag} {sizes : List ℕ}
    (hbody : fileBytes content (fun _ => 0) trace = (content.drop info.rangeStart.toNat).take k)
    (hpos : (trace.foldl seek fun _ => 0) fileFd = info.rangeStart.toNat + k)
    (hes : ∀ e ∈ es, OffFile e) :
    fileBytes content (fun _ => 0) (trace ++ (sizes.map (Effect.sentFile tag fileFd) ++ es)) =
        (content.drop info.rangeStart.toNat).take (k + sizes.sum) ∧
      ((trace ++ (sizes.map (Effect.sentFile tag fileFd) ++ es)).foldl seek fun _ => 0) fileFd =
        info.rangeStart.toNat + (k + sizes.sum) := by
  constructor
  · rw [fileBytes_append, fileBytes_append, (fileBytes_offFile _ _ hes).1, fileBytes_chunks, hbody, hpos,
      List.append_nil, List.take_add, List.drop_drop]
  · rw [List.foldl_append, List.foldl_append, (fileBytes_offFile content _ hes).2,
      seek_chunks, hpos, Nat.add_assoc]

/-- A call of `sendFileChunked` on a stream that waits. -/
theorem sent_chunked (hv : info.Valid content) {c : Connection} {trace : List Effect} {k : ℕ}
    (hk : k ≤ info.count)
    (hbody : fileBytes content (fun _ => 0) trace = (content.drop info.rangeStart.toNat).take k)
    (hpos : (trace.foldl seek fun _ => 0) fileFd = info.rangeStart.toNat + k)
    (hw : c.writeBuffer.drop c.written = []) (hs : c.isFileStream = true)
    (hf : c.fileFd = some fileFd) (he : c.fileEnd = info.rangeEnd)
    (ho : c.fileOffset = info.rangeStart + k) {outs : List IoResult} (houts : .wrote 0 ∉ outs) :
    Sent content info fileFd ⟨(c.sendFileChunked outs).conn, trace ++ (c.sendFileChunked outs).effects⟩ := by
  obtain ⟨hsize, h0, h1, h2⟩ := hv
  unfold FileStreamInfo.count at hk
  have hstart : c.fileOffset ≤ c.fileEnd + 1 := by omega
  obtain ⟨hsum, hle, hdone⟩ := Connection.chunkLoop_spec hstart houts
  have hcount : k + (Connection.chunkLoop c.fileEnd c.fileOffset outs).1.sum ≤ info.count := by
    unfold FileStreamInfo.count
    omega
  rcases c.sendFileChunked_cases outs with ⟨h, -⟩ | ⟨fileFd', h, hcase⟩
  · simp [hf] at h
  obtain rfl : fileFd = fileFd' := Option.some.inj (hf.symm.trans h)
  rcases hcase with ⟨-, hr⟩ | ⟨-, hr⟩ | ⟨hend, hr⟩
  · obtain ⟨hb, hp⟩ := body_chunks hbody hpos (List.forall_mem_nil OffFile)
    rw [List.append_nil] at hb hp
    rw [hr]
    refine ⟨_, hcount, hb, ?_⟩
    intro c' hc'
    obtain rfl := Option.some.inj hc'
    exact ⟨hw, Or.inl ⟨hs, hf, he, by simp only; omega, hp⟩⟩
  · have hes : ∀ e ∈ .closedFile fileFd :: (c.unlinkCleanup ++ [.closed]), OffFile e := by
      simpa [OffFile, or_imp, forall_and] using c.unlinkCleanup_offFile
    rw [hr]
    exact ⟨_, hcount, (body_chunks hbody hpos hes).1, fun c' hc' => by cases hc'⟩
  · have hes : ∀ e ∈ .closedFile fileFd :: c.unlinkCleanup, OffFile e := by
      simpa [OffFile] using c.unlinkCleanup_offFile
    rw [hr]
    refine ⟨_, hcount, (body_chunks hbody hpos hes).1, ?_⟩
    intro c' hc'
    obtain rfl := Option.some.inj hc'
    have hall := hdone hend
    refine ⟨hw, Or.inr ⟨rfl, ?_⟩⟩
    unfold FileStreamInfo.count
    omega

theorem sent_writable (hv : info.Valid content) {s : Link} (h : Sent content info fileFd s)
    {outs : List IoResult} (houts : .wrote 0 ∉ outs) :
    Sent content info fileFd (s.step (.writable outs)) := by
  obtain ⟨conn, trace⟩ := s
  cases conn with
  | none => exact h
  | some c =>
    obtain ⟨k, hk, hbody, hc⟩ := h
    obtain ⟨hw, ⟨hs, hf, he, ho, hpos⟩ | ⟨hf, hall⟩⟩ := hc c rfl
    · have hstream : c.Streaming := ⟨hs, by simp [hf]⟩
      have hwrite : c.handleWrite outs = c.sendFileChunked outs := if_pos hstream
      simp only [step, hwrite]
      exact sent_chunked hv hk hbody hpos hw hs hf he ho houts
    · -- The stream has ended, and there is nothing to send.
      rcases c.handleWrite_cases outs with ⟨h, -⟩ | ⟨-, data, rest, hdata, -, hcase⟩
      · exact absurd hf h.2
      obtain ⟨rfl, rfl⟩ := List.append_eq_nil_iff.1 (hdata.symm.trans hw)
      have hoff : ∀ es : List Effect, (∀ e ∈ es, OffFile e) →
          body content ⟨none, trace ++ es⟩ = (content.drop info.rangeStart.toNat).take k := by
        intro es hes
        rw [body, fileBytes_append, (fileBytes_offFile _ _ hes).1, List.append_nil]
        exact hbody
      rcases hcase with ⟨-, hr⟩ | hr | hr
      · simp only [step, hr]
        refine ⟨k, hk, hoff _ (by simp [OffFile]), ?_⟩
        intro c' hc'
        obtain rfl := Option.some.inj hc'
        exact ⟨rfl, Or.inr ⟨hf, hall⟩⟩
      · simp only [step, hr]
        refine ⟨k, hk, hoff _ (by simp [OffFile]), ?_⟩
        intro c' hc'
        obtain rfl := Option.some.inj hc'
        exact ⟨hw, Or.inr ⟨hf, hall⟩⟩
      · simp only [step, hr]
        exact ⟨k, hk, hoff _ (by simp [OffFile]), fun c' hc' => by cases hc'⟩

/-- `open` and `lseek` put the descriptor at the start of the range, and send nothing. -/
theorem open_seek (hv : info.Valid content) (fileFd : Fd) (pos : Fd → ℕ) :
    fileBytes content pos (.opened fileFd :: Connection.seekStart info fileFd) = [] ∧
      ((Effect.opened fileFd :: Connection.seekStart info fileFd).foldl seek pos) fileFd =
        info.rangeStart.toNat := by
  have h0 := hv.start_nonneg
  unfold Connection.seekStart
  split_ifs
  · simp [fileBytes, sentBytes, seek]
  · simp [fileBytes, sentBytes, seek]
    omega

/-- `processPendingWrites` starts the stream. -/
theorem sent_respond (hv : info.Valid content) (c : Connection) (tag : Tag) {resp : Response}
    (hfile : resp.isFileStream) (hinfo : resp.fileStreamInfo = info) {io : Connection.FlushIo}
    (hopen : io.opened = some fileFd) (houts : .wrote 0 ∉ io.fileOuts) :
    Sent content info fileFd ((start c).step (.respond tag resp io)) := by
  obtain ⟨hb, hp⟩ := fileBytes_offFile content (fun _ => 0)
    (c.sendResponse_offFile tag resp.text io.outs)
  obtain ⟨hb', hp'⟩ := open_seek hv fileFd fun _ => 0
  have hsplit : ∀ es es' : List Effect, es ++ .opened fileFd :: (Connection.seekStart info fileFd ++ es') =
      (es ++ .opened fileFd :: Connection.seekStart info fileFd) ++ es' := by simp
  simp only [step, start, c.deliver_opened tag hfile hopen, List.nil_append, hinfo, hsplit]
  refine sent_chunked hv (Nat.zero_le _) ?_ ?_ rfl rfl rfl rfl (by simp [Connection.startStream]) houts
  · rw [fileBytes_append, hb, hp, hb']
    rfl
  · rw [List.foldl_append, hp, hp', Nat.add_zero]

/-- The file cannot be opened. -/
theorem sent_unopened (c : Connection) (tag : Tag) {resp : Response}
    (hfile : resp.isFileStream) {io : Connection.FlushIo} (hopen : io.opened = none) :
    Sent content info fileFd ((start c).step (.respond tag resp io)) := by
  have hoff : ∀ e ∈ (c.sendResponse tag resp.text io.outs).2 ++ [.closed], OffFile e := by
    simpa [OffFile, or_imp, forall_and] using c.sendResponse_offFile tag resp.text io.outs
  simp only [step, start, c.deliver_unopened tag hfile hopen, List.nil_append]
  exact ⟨0, Nat.zero_le _, (fileBytes_offFile _ _ hoff).1, fun c' hc' => by cases hc'⟩

theorem range_length (hv : info.Valid content) : (info.range content).length = info.count := by
  obtain ⟨hsize, h0, h1, h2⟩ := hv
  unfold FileStreamInfo.range FileStreamInfo.count
  rw [List.length_take, List.length_drop]
  omega

/-- The responses that stream a file set no `Content-Length` of their own. -/
theorem fileResponse_spec {resp : Response}
    (hresp : (∃ name, resp = .downloadFile info name) ∨ resp = .streamFile info) :
    resp.isFileStream = true ∧ resp.fileStreamInfo = info ∧
      resp.headers.get contentLengthKey = none := by
  rcases hresp with ⟨name, rfl⟩ | rfl
  · exact ⟨rfl, rfl, rfl⟩
  · refine ⟨rfl, rfl, ?_⟩
    cases hp : info.isPartial <;> simp only [Response.streamFile, hp] <;> rfl

/-- The response announces the length of the range. -/
theorem announced (hv : info.Valid content) {resp : Response}
    (hresp : (∃ name, resp = .downloadFile info name) ∨ resp = .streamFile info) :
    ∃ head tail, resp.serializeHeaders = head ++ contentLengthKey ++ lit ": " ++
      decInt (info.range content).length ++ crlf ++ tail := by
  obtain ⟨hfile, hinfo, hget⟩ := fileResponse_spec hresp
  have hlen : resp.contentLen = ((info.range content).length : ℤ) := by
    have h0 := hv.start_le
    rw [Response.contentLen, if_pos hfile, hinfo, range_length hv, FileStreamInfo.count]
    omega
  refine ⟨resp.headLines, resp.connectionLine ++ crlf, ?_⟩
  rw [Response.serializeHeaders, Response.lengthLine, if_pos hget, hlen]
  simp only [List.append_assoc]

theorem sent_run (hv : info.Valid content) {s : Link} (h : Sent content info fileFd s)
    {outs : List (List IoResult)} (houts : ∀ rs ∈ outs, .wrote 0 ∉ rs) :
    Sent content info fileFd (Run.exec step s (outs.map .writable)) := by
  induction outs generalizing s with
  | nil => exact h
  | cons rs outs ih =>
    obtain ⟨hrs, houts⟩ := List.forall_mem_cons.1 houts
    exact ih (sent_writable hv h hrs) houts

/-- **File bodies are sent exactly.** -/
theorem file_body_exact {content : Str} {info : FileStreamInfo} (hv : info.Valid content)
    {resp : Response} (hresp : (∃ name, resp = .downloadFile info name) ∨ resp = .streamFile info)
    (c : Connection) (tag : Tag) (io : Connection.FlushIo)
    (outs : List (List IoResult)) (houts : ∀ rs ∈ io.fileOuts :: outs, .wrote 0 ∉ rs) :
    let s := Run.exec step (start c) (.respond tag resp io :: outs.map .writable)
    (∀ es, es <+: s.trace → fileBytes content (fun _ => 0) es <+: info.range content) ∧
    (∀ c', s.conn = some c' → c'.fileFd = none → s.body content = info.range content) ∧
    ∃ head tail, resp.serializeHeaders = head ++ contentLengthKey ++ lit ": " ++
      decInt (info.range content).length ++ crlf ++ tail := by
  intro s
  obtain ⟨hfile, hinfo, -⟩ := fileResponse_spec hresp
  obtain ⟨hout, houts⟩ := List.forall_mem_cons.1 houts
  have hstart : ∃ fileFd, Sent content info fileFd ((start c).step (.respond tag resp io)) := by
    cases hopen : io.opened with
    | none => exact ⟨0, sent_unopened c tag hfile hopen⟩
    | some fileFd => exact ⟨fileFd, sent_respond hv c tag hfile hinfo hopen hout⟩
  obtain ⟨fileFd, hstart⟩ := hstart
  obtain ⟨k, hk, hbody, hc⟩ := sent_run hv hstart houts
  refine ⟨?_, ?_, announced hv hresp⟩
  · intro es hes
    refine (fileBytes_mono hes).trans ?_
    rw [show fileBytes content (fun _ => 0) s.trace = _ from hbody]
    exact List.take_prefix_take_left hk
  · intro c' hc' hf
    obtain ⟨-, ⟨-, hf', -⟩ | ⟨-, rfl⟩⟩ := hc c' hc'
    · rw [hf] at hf'
      cases hf'
    · exact hbody

/-- The last three bytes of a file of five, in two writes with `EAGAIN` between. -/
theorem abcde_sent :
    (Run.exec step (start { peer := 0 })
      [.respond ⟨0, 0⟩ (.streamFile { fileSize := 5, rangeStart := 2, rangeEnd := 4 })
        ⟨[.wrote 1000], some 9, [.wrote 2, .again]⟩, .writable [.wrote 2]]).body (lit "abcde") =
      lit "cde" :=
  (file_body_exact ⟨rfl, by decide, by decide, by decide⟩ (Or.inr rfl) { peer := 0 } ⟨0, 0⟩
    ⟨[.wrote 1000], some 9, [.wrote 2, .again]⟩ [[.wrote 2]] (by decide)).2.1 _ rfl rfl

end Link

end NarMusic
