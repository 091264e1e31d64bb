/-
  What a client reads from one connection.

  A client takes turns when it asks again only after it has read the whole answer.  Then nothing is
  held of an earlier response when the next one is sent, and the bytes on the socket are the responses
  one after the other, the file bodies behind their header blocks: so the client has read, at every
  moment and in whatever chunks the bytes arrive, the responses it was given, in order and as they
  were built (`delivered`).
-/
import NarMusic.Http.Replies
import NarMusic.Server.FileStream

namespace NarMusic

open Cxx

/-- What an effect puts on the socket, where `files` are the contents of the files that the responses
    stream. -/
def effectBytes (files : Tag → Str) (pos : Fd → ℕ) : Effect → Str
  | .sent _ data => data
  | .sentFile tag fileFd n => ((files tag).drop (pos fileFd)).take n
  | _ => []

def wireBytes (files : Tag → Str) : (Fd → ℕ) → List Effect → Str
  | _, [] => []
  | pos, e :: es => effectBytes files pos e ++ wireBytes files (seek pos e) es

section
variable {files : Tag → Str} {pos : Fd → ℕ}

theorem wireBytes_append (es es' : List Effect) :
    wireBytes files pos (es ++ es') = wireBytes files pos es ++ wireBytes files (es.foldl seek pos) es' := by
  induction es generalizing pos with
  | nil => rfl
  | cons e es ih => rw [List.cons_append, wireBytes, ih, wireBytes, List.foldl_cons, List.append_assoc]

/-- Effects that are not on a file put texts on the socket. -/
theorem wireBytes_offFile (files : Tag → Str) (pos : Fd → ℕ) {es : List Effect} (h : ∀ e ∈ es, OffFile e) :
    wireBytes files pos es = (wireCells es).filterMap (·.2) := by
  have hcells (tag : Tag) (data : Str) : (textCells tag data).filterMap (·.2) = data := by
    rw [textCells, List.filterMap_map]
    exact List.filterMap_some
  induction es generalizing pos with
  | nil => rfl
  | cons e es ih =>
    obtain ⟨he, hes⟩ := List.forall_mem_cons.1 h
    have hrest := ih (seek pos e) hes
    cases e with
    | sent tag data => rw [wireBytes, hrest, wireCells, List.filterMap_append, hcells]; rfl
    | opened _ => exact he.elim
    | seeked _ _ => exact he.elim
    | sentFile _ _ _ => exact he.elim
    | _ => exact hrest

/-- Calls of `sendfile` on one descriptor send what one call for their sum would. -/
theorem wireBytes_chunks (tag : Tag) (fileFd : Fd) (sizes : List ℕ) :
    wireBytes files pos (sizes.map (.sentFile tag fileFd)) =
      ((files tag).drop (pos fileFd)).take sizes.sum := by
  induction sizes generalizing pos with
  | nil => simp [wireBytes]
  | cons n sizes ih =>
    simp only [List.map_cons, wireBytes, effectBytes, seek, ih, Function.update_self, List.sum_cons]
    rw [List.take_add, List.drop_drop]

end

/-! ## What a connection still has to send -/

/-- A range of a file with this content, or the empty range behind its end. -/
structure FileStreamInfo.Fits (info : FileStreamInfo) (content : Str) : Prop where
  start_nonneg : 0 ≤ info.rangeStart
  start_le : info.rangeStart ≤ info.rangeEnd + 1
  end_lt : info.rangeEnd < content.length

namespace Connection

/-- The rest of the file, or of `writeBuffer`. -/
def held (files : Tag → Str) (c : Connection) : Str :=
  if c.Streaming then ((files c.streamTag).drop c.fileOffset.toNat).take (c.fileEnd - c.fileOffset + 1).toNat
  else c.writeBuffer.drop c.written

/-- While a file is being streamed, its descriptor is at the offset, some of the range is left, and
    `writeBuffer` has been sent. -/
def Ready (files : Tag → Str) (pos : Fd → ℕ) (c : Connection) : Prop :=
  c.Streaming → c.writeBuffer.drop c.written = [] ∧ 0 ≤ c.fileOffset ∧ c.fileOffset ≤ c.fileEnd ∧
    c.fileEnd < (files c.streamTag).length ∧ ∀ fileFd, c.fileFd = some fileFd → pos fileFd = c.fileOffset.toNat

variable {files : Tag → Str} {pos : Fd → ℕ} {c : Connection} {outs : List IoResult}

theorem chunkLoop_again {fileEnd offset : ℤ} (h : (chunkLoop fileEnd offset outs).2.2 = .again) :
    (chunkLoop fileEnd offset outs).2.1 ≤ fileEnd := by
  induction outs generalizing offset with
  | nil =>
    unfold chunkLoop at h ⊢
    split_ifs at h ⊢ with hend
    · exact hend
  | cons r outs ih =>
    unfold chunkLoop at h ⊢
    by_cases hend : offset ≤ fileEnd
    · rw [if_pos hend] at h ⊢
      cases r with
      | wrote n =>
        dsimp only at h ⊢
        split_ifs at h ⊢
        all_goals exact ih h
      | again => exact hend
      | failed => cases h
    · rw [if_neg hend] at h
      cases h

/-- Nothing is held by a connection that is ready exactly when it has nothing to do. -/
theorem Ready.idle (h : c.Ready files pos) (hheld : c.held files = []) :
    ¬ c.Streaming ∧ c.writeBuffer.drop c.written = [] := by
  by_cases hs : c.Streaming
  · obtain ⟨-, h0, hle, hlt, -⟩ := h hs
    rw [held, if_pos hs] at hheld
    have hlen := congrArg List.length hheld
    rw [List.length_take, List.length_drop, List.length_nil] at hlen
    omega
  · rw [held, if_neg hs] at hheld
    exact ⟨hs, hheld⟩

/-- A call of `sendFileChunked` sends the next bytes of the range. -/
theorem sendFileChunked_held {fileFd : Fd} (hs : c.isFileStream = true) (hf : c.fileFd = some fileFd)
    (hw : c.writeBuffer.drop c.written = []) (h0 : 0 ≤ c.fileOffset) (hle : c.fileOffset ≤ c.fileEnd + 1)
    (hlt : c.fileEnd < (files c.streamTag).length) (hpos : pos fileFd = c.fileOffset.toNat)
    (houts : .wrote 0 ∉ outs) :
    ∃ rest, wireBytes files pos (c.sendFileChunked outs).effects ++ rest =
        ((files c.streamTag).drop c.fileOffset.toNat).take (c.fileEnd - c.fileOffset + 1).toNat ∧
      ∀ c', (c.sendFileChunked outs).conn = some c' →
        rest = c'.held files ∧ c'.Ready files ((c.sendFileChunked outs).effects.foldl seek pos) := by
  obtain ⟨hsum, hmax, hdone⟩ := chunkLoop_spec hle houts
  -- the sizes sent are those of the bytes up to the offset reached
  have hsplit : ((files c.streamTag).drop c.fileOffset.toNat).take (c.fileEnd - c.fileOffset + 1).toNat =
      wireBytes files pos (c.chunks fileFd outs) ++
        ((files c.streamTag).drop (chunkLoop c.fileEnd c.fileOffset outs).2.1.toNat).take
          (c.fileEnd - (chunkLoop c.fileEnd c.fileOffset outs).2.1 + 1).toNat := by
    have hcount : (c.fileEnd - c.fileOffset + 1).toNat = (chunkLoop c.fileEnd c.fileOffset outs).1.sum +
        (c.fileEnd - (chunkLoop c.fileEnd c.fileOffset outs).2.1 + 1).toNat := by omega
    have hoffset : (chunkLoop c.fileEnd c.fileOffset outs).2.1.toNat =
        c.fileOffset.toNat + (chunkLoop c.fileEnd c.fileOffset outs).1.sum := by omega
    rw [chunks, wireBytes_chunks, hpos, hcount, hoffset, List.take_add, List.drop_drop]
  have hoff {es : List Effect} (hes : ∀ e ∈ es, OffFile e) (hcells : wireCells es = []) :
      wireBytes files pos (c.chunks fileFd outs ++ es) = wireBytes files pos (c.chunks fileFd outs) := by
    rw [wireBytes_append, wireBytes_offFile _ _ hes, hcells, List.filterMap_nil, List.append_nil]
  have hunlink : wireCells c.unlinkCleanup = [] := by
    unfold unlinkCleanup
    split_ifs <;> rfl
  refine ⟨((files c.streamTag).drop (chunkLoop c.fileEnd c.fileOffset outs).2.1.toNat).take
    (c.fileEnd - (chunkLoop c.fileEnd c.fileOffset outs).2.1 + 1).toNat, ?_⟩
  rcases c.sendFileChunked_cases outs with ⟨h, -⟩ | ⟨fileFd', h, hcase⟩
  · rw [hf] at h
    cases h
  obtain rfl : fileFd = fileFd' := Option.some.inj (hf.symm.trans h)
  rcases hcase with ⟨hend, hr⟩ | ⟨-, hr⟩ | ⟨hend, hr⟩
  · refine ⟨by rw [hr, hsplit], fun c' hc' => ?_⟩
    rw [hr] at hc' ⊢
    obtain rfl := Option.some.inj hc'
    have hstream : Streaming { c with fileOffset := (chunkLoop c.fileEnd c.fileOffset outs).2.1 } :=
      ⟨hs, by simp [hf]⟩
    refine ⟨by rw [held, if_pos hstream], fun _ => ⟨hw, ?_, chunkLoop_again hend, hlt, fun fd hfd => ?_⟩⟩
    · show 0 ≤ (chunkLoop c.fileEnd c.fileOffset outs).2.1
      omega
    · obtain rfl : fileFd = fd := Option.some.inj (hf.symm.trans hfd)
      have hseek : (c.chunks fileFd outs).foldl seek pos fileFd =
          pos fileFd + (chunkLoop c.fileEnd c.fileOffset outs).1.sum := seek_chunks _ _ _
      have hreached : (chunkLoop c.fileEnd c.fileOffset outs).2.1.toNat =
          c.fileOffset.toNat + (chunkLoop c.fileEnd c.fileOffset outs).1.sum := by omega
      exact hseek.trans (by rw [hpos, ← hreached])
  · have hes : ∀ e ∈ .closedFile fileFd :: (c.unlinkCleanup ++ [.closed]), OffFile e := by
      simpa [OffFile, or_imp, forall_and] using c.unlinkCleanup_offFile
    refine ⟨?_, fun c' hc' => ?_⟩
    · rw [hr, hsplit]
      exact congrArg (· ++ _) (hoff hes (by simp [wireCells, hunlink]))
    · rw [hr] at hc'
      cases hc'
  · have hes : ∀ e ∈ .closedFile fileFd :: c.unlinkCleanup, OffFile e := by
      simpa [OffFile] using c.unlinkCleanup_offFile
    refine ⟨?_, fun c' hc' => ?_⟩
    · rw [hr, hsplit]
      exact congrArg (· ++ _) (hoff hes (by simp [wireCells, hunlink]))
    · rw [hr] at hc'
      obtain rfl := Option.some.inj hc'
      have hstream : ¬ Streaming { c with
          fileOffset := (chunkLoop c.fileEnd c.fileOffset outs).2.1, fileFd := none,
          isFileStream := false, cleanupPath := [] } := by
        rintro ⟨h, -⟩
        cases h
      refine ⟨?_, fun h => absurd h hstream⟩
      have hzero : (c.fileEnd - (c.fileEnd + 1) + 1).toNat = 0 := by omega
      rw [held, if_neg hstream, hdone hend, hzero, List.take_zero]
      exact hw.symm

/-- `handleWrite` on a connection that is ready sends the next bytes of what it holds. -/
theorem handleWrite_held (hready : c.Ready files pos) (houts : .wrote 0 ∉ outs) :
    ∃ rest, wireBytes files pos (c.handleWrite outs).effects ++ rest = c.held files ∧
      ∀ c', (c.handleWrite outs).conn = some c' →
        rest = c'.held files ∧ c'.Ready files ((c.handleWrite outs).effects.foldl seek pos) := by
  rcases c.handleWrite_cases outs with ⟨hs, hr⟩ | ⟨hs, data, rest, hdata, -, hcase⟩
  · obtain ⟨hw, h0, hle, hlt, hpos⟩ := hready hs
    obtain ⟨fileFd, hf⟩ := Option.ne_none_iff_exists'.1 hs.2
    rw [hr, held, if_pos hs]
    exact sendFileChunked_held hs.1 hf hw h0 (by omega) hlt (hpos fileFd hf) houts
  · rw [held, if_neg hs, hdata]
    refine ⟨rest, ?_, fun c' hc' => ?_⟩
    · rcases hcase with ⟨-, hr⟩ | hr | hr <;> simp [hr, wireBytes, effectBytes]
    · rcases hcase with ⟨rfl, hr⟩ | hr | hr
      · rw [hr] at hc'
        obtain rfl := Option.some.inj hc'
        exact ⟨(if_neg hs).symm, fun h => absurd h hs⟩
      · rw [hr] at hc'
        obtain rfl := Option.some.inj hc'
        refine ⟨?_, fun h => absurd h hs⟩
        have hrest : c.writeBuffer.drop (c.written + data.length) = rest := by
          rw [← List.drop_drop, hdata, List.drop_left]
        exact hrest.symm.trans (if_neg hs).symm
      · rw [hr] at hc'
        cases hc'

/-- The text is accepted in full. -/
def Accepts (text : Str) (outs : List IoResult) : Prop := text.length ≤ 65536 ∧ text.length ≤ granted outs

instance (text : Str) (outs : List IoResult) : Decidable (Accepts text outs) := instDecidableAnd

theorem sendResponse_text {tag : Tag} {text : Str} (h : Accepts text outs) :
    c.sendResponse tag text outs = (c, [.sent tag text]) := by
  have hstall : ¬ Stalls text outs := by
    rintro (hlong | ⟨hshort, -⟩)
    · exact absurd h.1 (not_le.2 hlong)
    · exact absurd h.2 (not_le.2 hshort)
  rw [sendResponse_accepted hstall, sentText, if_neg (not_lt.2 h.1), List.take_of_length_le h.2]

/-- A text that is accepted, or for which the socket is full, is sent and held. -/
theorem sendResponse_held (hs : ¬ c.Streaming) (hw : c.writeBuffer.drop c.written = []) {text : Str}
    (h : Accepts text outs ∨ Stalls text outs) (tag : Tag) :
    wireBytes files pos (c.sendResponse tag text outs).2 ++ (c.sendResponse tag text outs).1.held files = text ∧
      ¬ (c.sendResponse tag text outs).1.Streaming := by
  refine ⟨?_, fun hstream => hs (sendResponse_streaming.1 hstream)⟩
  rcases h with h | h
  · rw [sendResponse_text h, held, if_neg hs, hw]
    simp [wireBytes, effectBytes]
  · obtain ⟨es, rem, htext, hes, -, hr⟩ := c.sendResponse_stalled tag h
    have hoff := c.sendResponse_offFile tag text outs
    have hstream : ¬ Streaming { c with writeBuffer := rem, written := 0, writeTag := tag } := hs
    have hcells : (textCells tag (sentText text outs)).filterMap (·.2) = sentText text outs := by
      rw [textCells, List.filterMap_map]
      exact List.filterMap_some
    rw [wireBytes_offFile _ _ hoff, hr, wireCells_append, hes, List.filterMap_append, hcells, held,
      if_neg hstream]
    simp [wireCells, ← htext]

end Connection

/-! ## Responses with their bodies -/

namespace Response

theorem length_body {r : Response} (h : ¬ r.isFileStream) : (r.body.length : ℤ) = r.contentLen :=
  (if_neg h).symm

theorem length_range {r : Response} {content : Str} (h : r.isFileStream)
    (hfit : r.fileStreamInfo.Fits content) :
    ((r.fileStreamInfo.range content).length : ℤ) = r.contentLen := by
  obtain ⟨h0, h1, h2⟩ := hfit
  rw [contentLen, if_pos h, FileStreamInfo.range, FileStreamInfo.count, List.length_take, List.length_drop]
  omega

/-- The body behind the header block. -/
def payload (r : Response) (content : Str) : Str :=
  if r.isFileStream then r.fileStreamInfo.range content else r.body

def message (r : Response) (content : Str) : Str := r.serializeHeaders ++ r.payload content

theorem message_text {r : Response} (h : ¬ r.isFileStream) (content : Str) : r.message content = r.text := by
  rw [message, payload, if_neg h, text, if_neg h, serializeHeaders, ← length_body h, serialize]

theorem message_file {r : Response} (h : r.isFileStream) (content : Str) :
    r.message content = r.text ++ r.fileStreamInfo.range content := by
  rw [message, payload, if_pos h, text, if_pos h]

theorem Framed.writes_message {r : Response} (h : r.Framed) {content : Str}
    (hfit : r.isFileStream → r.fileStreamInfo.Fits content) :
    Reply.reader.Writes (r.message content) (r.reply (r.payload content)) := by
  refine h.writes ?_
  by_cases hfile : r.isFileStream
  · rw [payload, if_pos hfile]
    exact length_range hfile (hfit hfile)
  · rw [payload, if_neg hfile]
    exact length_body hfile

end Response

namespace Connection

variable {files : Tag → Str} {pos : Fd → ℕ} {c : Connection}

/-- `open` and `lseek` put the descriptor at the start of the range, and send nothing. -/
theorem opened_at {info : FileStreamInfo} (h0 : 0 ≤ info.rangeStart) (fileFd : Fd) (pos : Fd → ℕ) :
    wireBytes files pos (.opened fileFd :: seekStart info fileFd) = [] ∧
      (Effect.opened fileFd :: seekStart info fileFd).foldl seek pos fileFd = info.rangeStart.toNat := by
  unfold seekStart
  split_ifs with hpos
  · simp [wireBytes, effectBytes, seek]
  · have hzero : info.rangeStart.toNat = 0 := by omega
    simp [wireBytes, effectBytes, seek, hzero]

/-- A response for a connection that has nothing to do is sent and held. -/
theorem deliver_held (hs : ¬ c.Streaming) (hw : c.writeBuffer.drop c.written = []) {tag : Tag} {resp : Response}
    {io : FlushIo} (houts : .wrote 0 ∉ io.fileOuts)
    (hio : if resp.isFileStream then resp.fileStreamInfo.Fits (files tag) ∧ Accepts resp.text io.outs
      else Accepts resp.text io.outs ∨ Stalls resp.text io.outs) :
    ∃ rest, wireBytes files pos (c.deliver tag resp io).effects ++ rest = resp.message (files tag) ∧
      ∀ c', (c.deliver tag resp io).conn = some c' →
        rest = c'.held files ∧ c'.Ready files ((c.deliver tag resp io).effects.foldl seek pos) := by
  by_cases hfile : resp.isFileStream
  · rw [if_pos hfile] at hio
    obtain ⟨hfit, haccept⟩ := hio
    obtain ⟨h0, hle, hlt⟩ := hfit
    rw [Response.message_file hfile]
    cases hopen : io.opened with
    | none =>
      refine ⟨resp.fileStreamInfo.range (files tag), ?_, fun c' hc' => ?_⟩
      · rw [c.deliver_unopened tag hfile hopen, sendResponse_text haccept]
        simp [wireBytes, effectBytes]
      · rw [c.deliver_unopened tag hfile hopen] at hc'
        cases hc'
    | some fileFd =>
      obtain ⟨hnone, hseek⟩ := @opened_at files _ h0 fileFd pos
      have hsplit (es : List Effect) :
          [.sent tag resp.text] ++ .opened fileFd :: (seekStart resp.fileStreamInfo fileFd ++ es) =
            (.sent tag resp.text :: .opened fileFd :: seekStart resp.fileStreamInfo fileFd) ++ es := by simp
      obtain ⟨rest, hrest, hconn⟩ := @sendFileChunked_held files
        ((Effect.opened fileFd :: seekStart resp.fileStreamInfo fileFd).foldl seek pos)
        (c.startStream tag resp.fileStreamInfo fileFd) io.fileOuts fileFd rfl rfl rfl h0 hle hlt hseek houts
      rw [c.deliver_opened tag hfile hopen, sendResponse_text haccept]
      dsimp only
      refine ⟨rest, ?_, ?_⟩
      · have hhead : wireBytes files pos (.sent tag resp.text :: .opened fileFd ::
            seekStart resp.fileStreamInfo fileFd) = resp.text :=
          (congrArg (resp.text ++ ·) hnone).trans (List.append_nil _)
        rw [hsplit, wireBytes_append, hhead, List.append_assoc]
        exact congrArg (resp.text ++ ·) hrest
      · rw [hsplit, List.foldl_append]
        exact hconn
  · rw [if_neg hfile] at hio
    obtain ⟨htext, hstream⟩ := @sendResponse_held files pos c io.outs hs hw resp.text hio tag
    rw [Response.message_text hfile, c.deliver_text tag io hfile]
    refine ⟨_, htext, fun c' hc' => ?_⟩
    obtain rfl := Option.some.inj hc'
    exact ⟨rfl, fun h => absurd h hstream⟩

end Connection

/-! ## Sessions -/

/-- A connection, and the responses it has been given. -/
structure Session where
  link : Link
  given : List (Tag × Response)

namespace Session

def step (s : Session) (l : Link.Label) : Session where
  link := s.link.step l
  given :=
    match l, s.link.conn with
    | .respond tag resp _, some _ => s.given ++ [(tag, resp)]
    | _, _ => s.given

section
variable (files : Tag → Str)

/-- The bytes on the socket so far. -/
def wire (s : Session) : Str := wireBytes files (fun _ => 0) s.link.trace

/-- What the client has read. -/
def replies (s : Session) : List Reply := (Reply.reader.readAll (s.wire files)).1

def message (x : Tag × Response) : Str := x.2.message (files x.1)

def reply (x : Tag × Response) : Reply := x.2.reply (x.2.payload (files x.1))

/-- The client has read every earlier response when it is given one; no call fails while the text of
    the response is sent, and where a file follows, the text is accepted in full; and the file does
    not end within its range. -/
def TakesTurns (s : Session) : Link.Label → Prop
  | .writable outs => .wrote 0 ∉ outs
  | .respond tag resp io =>
    (s.replies files).length = s.given.length ∧ resp.Framed ∧ .wrote 0 ∉ io.fileOuts ∧
      if resp.isFileStream then resp.fileStreamInfo.Fits (files tag) ∧ Connection.Accepts resp.text io.outs
      else Connection.Accepts resp.text io.outs ∨ Connection.Stalls resp.text io.outs

/-- The responses are on the socket one after the other, up to what the connection holds; and at
    most the last has not been read. -/
structure Inv (s : Session) : Prop where
  writes : ∀ x ∈ s.given, Reply.reader.Writes (message files x) (reply files x)
  bytes : ∃ rest, s.wire files ++ rest = s.given.flatMap (message files) ∧
    ∀ c, s.link.conn = some c → rest = c.held files ∧ c.Ready files (s.link.trace.foldl seek fun _ => 0)
  last : s.given.length ≤ (s.replies files).length + 1

end

variable {files : Tag → Str} {s : Session}

/-- The client has read the first of the responses, and then waits for the next. -/
theorem Inv.read (h : s.Inv files) {q : Str} (hq : q <+: s.wire files) :
    ∃ k left, k ≤ s.given.length ∧ q = (s.given.take k).flatMap (message files) ++ left ∧
      Reply.reader.readAll q = ((s.given.take k).map (reply files), left) ∧ (k = s.given.length → left = []) := by
  obtain ⟨rest, hrest, -⟩ := h.bytes
  obtain ⟨k, left, hk, hsplit, hread, hall, -⟩ :=
    FrameReader.readAll_prefix h.writes (hq.trans ⟨rest, hrest⟩)
  exact ⟨k, left, hk, hsplit, hread, hall⟩

/-- When it has read them all, nothing is held. -/
theorem Inv.read_all (h : s.Inv files) (hlen : (s.replies files).length = s.given.length) :
    s.wire files = s.given.flatMap (message files) := by
  obtain ⟨k, left, hk, hsplit, hread, hall⟩ := h.read (List.prefix_refl _)
  rw [replies, hread, List.length_map, List.length_take, Nat.min_eq_left hk] at hlen
  rw [hall hlen, List.append_nil, hlen, List.take_length] at hsplit
  exact hsplit

section
variable {conn conn' : Option Connection} {trace es : List Effect} {given given' : List (Tag × Response)}

theorem wire_append : wire files ⟨⟨conn', trace ++ es⟩, given'⟩ =
    wire files ⟨⟨conn, trace⟩, given⟩ ++ wireBytes files (trace.foldl seek fun _ => 0) es :=
  wireBytes_append _ _

theorem replies_mono :
    (replies files ⟨⟨conn, trace⟩, given⟩).length ≤ (replies files ⟨⟨conn', trace ++ es⟩, given'⟩).length := by
  rw [replies, replies, @wire_append files conn conn' trace es given given']
  exact (FrameReader.readAll_mono _ _).length_le

end

theorem inv_writable {c : Connection} {trace : List Effect} {given : List (Tag × Response)}
    (h : Inv files ⟨⟨some c, trace⟩, given⟩) {outs : List IoResult} (houts : .wrote 0 ∉ outs) :
    Inv files ⟨⟨(c.handleWrite outs).conn, trace ++ (c.handleWrite outs).effects⟩, given⟩ := by
  obtain ⟨hwrites, ⟨rest, hrest, hconn⟩, hlast⟩ := h
  obtain ⟨rfl, hready⟩ := hconn c rfl
  obtain ⟨rest, hheld, hconn'⟩ := Connection.handleWrite_held hready houts
  refine ⟨hwrites, ⟨rest, ?_, fun c' hc' => ?_⟩, hlast.trans (Nat.succ_le_succ replies_mono)⟩
  · rw [@wire_append files (some c) _ trace _ given, List.append_assoc]
    exact (congrArg (_ ++ ·) hheld).trans hrest
  · rw [List.foldl_append]
    exact hconn' c' hc'

theorem inv_respond {c : Connection} {trace : List Effect} {given : List (Tag × Response)}
    (h : Inv files ⟨⟨some c, trace⟩, given⟩) {tag : Tag} {resp : Response} {io : Connection.FlushIo}
    (hturn : TakesTurns files ⟨⟨some c, trace⟩, given⟩ (.respond tag resp io)) :
    Inv files ⟨⟨(c.deliver tag resp io).conn, trace ++ (c.deliver tag resp io).effects⟩,
      given ++ [(tag, resp)]⟩ := by
  obtain ⟨hlen, hframed, houts, hio⟩ := hturn
  have hall := h.read_all hlen
  obtain ⟨hwrites, ⟨rest, hrest, hconn⟩, -⟩ := h
  obtain ⟨rfl, hready⟩ := hconn c rfl
  -- all of it is on the socket, so that nothing is held
  have hnone : c.held files = [] := by
    rw [hall] at hrest
    exact List.append_right_eq_self.1 hrest
  obtain ⟨hs, hw⟩ := hready.idle hnone
  obtain ⟨rest, hheld, hconn'⟩ := Connection.deliver_held hs hw houts hio
  refine ⟨fun x hx => ?_, ⟨rest, ?_, fun c' hc' => ?_⟩, ?_⟩
  · rcases List.mem_append.1 hx with hx | hx
    · exact hwrites x hx
    · obtain rfl := List.mem_singleton.1 hx
      refine hframed.writes_message fun hfile => ?_
      rw [if_pos hfile] at hio
      exact hio.1
  · rw [@wire_append files (some c) _ trace _ given, List.append_assoc, List.flatMap_append,
      List.flatMap_singleton, hall]
    exact congrArg (_ ++ ·) hheld
  · rw [List.foldl_append]
    exact hconn' c' hc'
  · rw [List.length_append, List.length_singleton]
    exact Nat.succ_le_succ (hlen.ge.trans replies_mono)

theorem inv_step (s : Session) (l : Link.Label) (h : s.Inv files) (hturn : s.TakesTurns files l) :
    (s.step l).Inv files := by
  obtain ⟨⟨conn, trace⟩, given⟩ := s
  cases conn with
  | none => cases l <;> exact h
  | some c =>
    cases l with
    | respond tag resp io => exact inv_respond h hturn
    | writable outs => exact inv_writable h hturn

/-- A connection that has nothing to do, before any response. -/
def start (c : Connection) : Session := ⟨Link.start c, []⟩

theorem inv_start {c : Connection} (hs : ¬ c.Streaming) (hw : c.writeBuffer.drop c.written = []) :
    (start c).Inv files := by
  refine ⟨List.forall_mem_nil _, ⟨[], rfl, fun c' hc' => ?_⟩, Nat.zero_le _⟩
  obtain rfl := Option.some.inj hc'
  exact ⟨hw.symm.trans (if_neg hs).symm, fun h => absurd h hs⟩

/-- **What a client that takes turns reads.**  In every run, whatever part of the bytes has arrived
    and in whatever chunks, it has read the first of the responses it was given, in order, with their
    bodies; at most the last is missing, and none is when the connection is there and holds nothing. -/
theorem delivered (files : Tag → Str) (c : Connection) (hs : ¬ c.Streaming)
    (hw : c.writeBuffer.drop c.written = []) (run : List Link.Label)
    (h : Run.Each step (TakesTurns files) (start c) run) :
    (∀ chunks : List Str, chunks.flatten <+: (Run.exec step (start c) run).wire files →
      (chunks.foldl Reply.reader.feed ([], [])).1 <+: (Run.exec step (start c) run).given.map (reply files)) ∧
    (Run.exec step (start c) run).given.length ≤ ((Run.exec step (start c) run).replies files).length + 1 ∧
    ∀ c', (Run.exec step (start c) run).link.conn = some c' → c'.held files = [] →
      (Run.exec step (start c) run).replies files = (Run.exec step (start c) run).given.map (reply files) := by
  have hinv := h.inv inv_step (inv_start hs hw)
  generalize Run.exec step (start c) run = s at hinv ⊢
  refine ⟨fun chunks hchunks => ?_, hinv.last, fun c' hc' hnone => ?_⟩
  · obtain ⟨k, left, -, -, hread, -⟩ := hinv.read hchunks
    rw [← FrameReader.readAll_nil (r := Reply.reader), FrameReader.feed_chunks, List.nil_append, hread]
    exact (List.take_prefix _ _).map _
  · obtain ⟨rest, hrest, hconn⟩ := hinv.bytes
    obtain ⟨rfl, -⟩ := hconn c' hc'
    rw [hnone, List.append_nil] at hrest
    have hread := FrameReader.readAll_written hinv.writes []
    rw [List.append_nil, ← hrest, FrameReader.readAll_nil, List.append_nil] at hread
    rw [replies, hread]

/-- An empty response in two writes, and then the last three bytes of a file of five. -/
def twoAnswers : List Link.Label :=
  [.respond ⟨0, 0⟩ {} ⟨[.wrote 10], none, []⟩, .writable [.wrote 100],
    .respond ⟨1, 0⟩ (.streamFile { fileSize := 5, rangeStart := 2, rangeEnd := 4 })
      ⟨[.wrote 1000], some 9, [.wrote 2, .again]⟩, .writable [.wrote 2]]

def abcde (_ : Tag) : Str := lit "abcde"

theorem twoAnswers_turns : Run.Each step (TakesTurns abcde) (start { peer := 0 }) twoAnswers := by
  have hempty : Response.Framed {} :=
    @Response.framed_of {} [] Response.ok_framed.1 Response.ok_framed.2 rfl (List.forall_mem_nil _)
  have hstall : Connection.Stalls (Response.text {}) [.wrote 10] := by decide +kernel
  have hwrote : IoResult.wrote 0 ∉ [IoResult.wrote 100] ∧ IoResult.wrote 0 ∉ [IoResult.wrote 2] := by decide
  refine ⟨⟨by decide +kernel, hempty, by decide, Or.inr hstall⟩, hwrote.1,
    ⟨by decide +kernel, Response.framed_streamFile _, by decide, ⟨by decide, by decide, by decide +kernel⟩, ?_⟩,
    hwrote.2, trivial⟩
  decide +kernel

theorem twoAnswers_delivered : (Run.exec step (start { peer := 0 }) twoAnswers).replies abcde =
    (Run.exec step (start { peer := 0 }) twoAnswers).given.map (reply abcde) :=
  (delivered abcde { peer := 0 } (by decide) rfl twoAnswers twoAnswers_turns).2.2 _ rfl (by decide +kernel)

end Session

end NarMusic
