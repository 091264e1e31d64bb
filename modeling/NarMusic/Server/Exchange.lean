/-
  Requests and responses on one live connection.

  A step delivers the next chunk of the bytes the client has sent, or runs a
  queued worker task.  A worker takes the whole buffer and answers only the first
  request in it, so a request is answered when its bytes never share the buffer
  with those of the next one: a *paced* run, whose chunks end where the requests
  end and wait for the workers (`paced_answered`).
-/
import NarMusic.Http.Canonical
import NarMusic.Server.Connection
import NarMusic.Lib.Run

namespace NarMusic

open Cxx

/-- One connection, its queued worker tasks, and the bytes not read yet. -/
structure Exchange (σ : Type) where
  conn : Option Connection
  tasks : ℕ
  input : Str
  app : σ
  dispatched : List Request
  enqueued : List Response

namespace Exchange

inductive Label where
  /-- The next `n` bytes arrive. -/
  | chunk (n : ℕ)
  /-- A queued worker task runs. -/
  | work

section
variable {σ : Type} (dispatch : Request → σ → Response × σ)

/-- `handleRead` on a chunk.  An exception that leaves it ends the program. -/
def deliverChunk (s : Exchange σ) (n : ℕ) : Exchange σ :=
  match s.conn with
  | none => s
  | some c =>
    if s.input.take n = [] then s
    else match c.handleRead 0 [.bytes (s.input.take n), .again] with
      | .error _ => { s with conn := none, tasks := 0 }
      | .ok (o, detach) =>
        { s with conn := o.conn, tasks := s.tasks + detach.toNat, input := s.input.drop n }

/-- A worker task: it takes the buffer and enqueues the answer. -/
def runTask (s : Exchange σ) : Exchange σ :=
  match s.tasks, s.conn with
  | 0, _ => s
  | tasks + 1, none => { s with tasks }
  | tasks + 1, some c =>
    let a := answer (fun req app => (.ok (dispatch req app).1, (dispatch req app).2)) c.readBuffer s.app
    { s with
      conn := some { c with readBuffer := [] }, tasks, app := a.app,
      dispatched := s.dispatched ++ a.dispatched.toList,
      enqueued := s.enqueued ++ a.response.toList }

def step (s : Exchange σ) : Label → Exchange σ
  | .chunk n => s.deliverChunk n
  | .work => s.runTask dispatch

/-- The bytes of a sequence of requests. -/
def wire (reqs : List Canonical) : Str := reqs.flatMap Canonical.bytes

/-- A connection on which the client has sent `reqs` back to back. -/
def start (app : σ) (reqs : List Canonical) : Exchange σ where
  conn := some { peer := 0 }
  tasks := 0
  input := wire reqs
  app := app
  dispatched := []
  enqueued := []

/-- Bytes are left to read, or tasks to run. -/
def Pending (s : Exchange σ) : Prop := s.input ≠ [] ∨ s.tasks ≠ 0

/-- The responses of the router to a sequence of requests, and the state it reaches. -/
def answers : List Request → σ → List Response × σ
  | [], app => ([], app)
  | req :: reqs, app =>
    let r := answers reqs (dispatch req app).2
    ((dispatch req app).1 :: r.1, r.2)

/-- Each request has been dispatched once, in order, and one response enqueued for it. -/
def Answered (app : σ) (reqs : List Canonical) (s : Exchange σ) : Prop :=
  s.dispatched = reqs.map Canonical.request ∧
    s.enqueued = (answers dispatch (reqs.map Canonical.request) app).1

/-- The chunks of a run keep the buffer under `MAX_REQUEST_SIZE`. -/
def Fits (s : Exchange σ) : Label → Prop
  | .chunk n =>
    (s.conn.elim 0 fun c => c.readBuffer.length) + (s.input.take n).length ≤ MAX_REQUEST_SIZE
  | .work => True

/-- A chunk comes when no worker task is queued, and no request ends strictly inside it. -/
def Paced (reqs : List Canonical) (s : Exchange σ) : Label → Prop
  | .chunk n => s.input.take n ≠ [] → s.tasks = 0 ∧ ∀ i ≤ reqs.length,
      ¬ ((wire reqs).length - s.input.length < (wire (reqs.take i)).length ∧
        (wire (reqs.take i)).length <
          (wire reqs).length - s.input.length + (s.input.take n).length)
  | .work => True

instance (s : Exchange σ) (l : Label) : Decidable (Fits s l) := by
  cases l <;> unfold Fits <;> infer_instance

instance (s : Exchange σ) : Decidable (Pending s) := instDecidableOr

instance (reqs : List Canonical) (s : Exchange σ) (l : Label) : Decidable (Paced reqs s l) := by
  cases l <;> unfold Paced <;> infer_instance

/-! ## Paced runs -/

/-- Between two steps of a paced run: the requests `old` have been answered, and what is left
    of the others is in the buffer (a part of one request, or a whole one and its task) and in
    the input. -/
structure Inv (app : σ) (reqs : List Canonical) (s : Exchange σ) (old new : List Canonical) : Prop where
  split : reqs = old ++ new
  dispatched : s.dispatched = old.map Canonical.request
  enqueued : s.enqueued = (answers dispatch (old.map Canonical.request) app).1
  app_eq : s.app = (answers dispatch (old.map Canonical.request) app).2
  conn : ∃ c, s.conn = some c ∧ wire new = c.readBuffer ++ s.input ∧
    (s.tasks = 0 ∧ (∀ r rest, new = r :: rest → c.readBuffer.length < r.bytes.length) ∨
      s.tasks = 1 ∧ ∃ r rest, new = r :: rest ∧ c.readBuffer = r.bytes)

variable {dispatch} {app : σ} {reqs old new : List Canonical} {s : Exchange σ}

@[simp] theorem wire_nil : wire [] = [] := rfl

@[simp] theorem wire_cons (r : Canonical) (rest : List Canonical) :
    wire (r :: rest) = r.bytes ++ wire rest := rfl

@[simp] theorem wire_append (l l' : List Canonical) : wire (l ++ l') = wire l ++ wire l' :=
  List.flatMap_append

theorem answers_append (l l' : List Request) (app : σ) :
    answers dispatch (l ++ l') app =
      ((answers dispatch l app).1 ++ (answers dispatch l' (answers dispatch l app).2).1,
        (answers dispatch l' (answers dispatch l app).2).2) := by
  induction l generalizing app with
  | nil => rfl
  | cons r l ih => simp only [List.cons_append, answers, ih]

theorem handleRead_chunk (c : Connection) {data : Str} (hd : data ≠ [])
    (hf : c.readBuffer.length + data.length ≤ MAX_REQUEST_SIZE) {complete : Bool}
    (hc : Request.isCompleteRequest (c.readBuffer ++ data) = .ok complete) :
    c.handleRead 0 [.bytes data, .again] =
      .ok (⟨some { c with lastActive := 0, readBuffer := c.readBuffer ++ data }, [.received data]⟩,
        complete) := by
  obtain ⟨b, data, rfl⟩ := List.exists_cons_of_ne_nil hd
  simp only [Connection.handleRead, Connection.readLoop, List.append_nil, if_neg hd,
    if_neg (not_lt.2 hf), hc]
  rfl

/-- A paced chunk stays within the request it continues. -/
theorem paced_within {c : Connection} {r : Canonical} {rest : List Canonical} {n : ℕ}
    (hp : Paced (old ++ r :: rest) s (.chunk n)) (hn : s.input.take n ≠ [])
    (hw : wire (r :: rest) = c.readBuffer ++ s.input) (hlt : c.readBuffer.length < r.bytes.length) :
    c.readBuffer.length + (s.input.take n).length ≤ r.bytes.length := by
  have hb := (hp hn).2 (old.length + 1) (by simp)
  have htake : (old ++ r :: rest).take (old.length + 1) = old ++ [r] := by
    rw [List.take_length_add_append]
    simp
  have hlen := congrArg List.length hw
  simp only [List.length_append, wire_cons] at hlen
  rw [htake] at hb
  simp only [wire_append, wire_cons, wire_nil, List.append_nil, List.length_append] at hb
  omega

theorem inv_chunk (h : Inv dispatch app reqs s old new) {n : ℕ} (hf : Fits s (.chunk n))
    (hp : Paced reqs s (.chunk n)) : Inv dispatch app reqs (s.deliverChunk n) old new := by
  obtain ⟨rfl, h1, h2, h3, c, hc, hw, ht⟩ := h
  unfold deliverChunk
  rw [hc]
  simp only
  split_ifs with hn
  · exact ⟨rfl, h1, h2, h3, c, hc, hw, ht⟩
  rcases ht with ⟨ht, hlt⟩ | ⟨ht, -⟩
  swap
  · exact absurd (hp hn).1 (by omega)
  cases new with
  | nil =>
    have : s.input = [] := (List.append_eq_nil_iff.1 hw.symm).2
    simp [this] at hn
  | cons r rest =>
    have hin := paced_within hp hn hw (hlt r rest rfl)
    have hfit : c.readBuffer.length + (s.input.take n).length ≤ MAX_REQUEST_SIZE := by
      simpa [Fits, hc] using hf
    -- The buffer is a prefix of the bytes of `r`, and complete when it is all of them.
    have hpre : c.readBuffer ++ s.input.take n =
        r.bytes.take (c.readBuffer.length + (s.input.take n).length) := by
      have := congrArg (List.take (c.readBuffer.length + (s.input.take n).length)) hw
      rw [wire_cons, List.take_append_of_le_length hin, List.take_length_add_append] at this
      rw [this, ← List.prefix_iff_eq_take.1 (List.take_prefix n s.input)]
    have hw' : wire (r :: rest) = (c.readBuffer ++ s.input.take n) ++ s.input.drop n := by
      rw [List.append_assoc, List.take_append_drop, hw]
    rcases Nat.lt_or_eq_of_le hin with hlt' | heq
    · have hcomp := r.complete_take hlt'
      rw [← hpre] at hcomp
      rw [handleRead_chunk c hn hfit hcomp]
      refine ⟨rfl, h1, h2, h3, _, rfl, hw', Or.inl ⟨ht, ?_⟩⟩
      intro r' rest' he
      obtain ⟨rfl, rfl⟩ := List.cons.inj he
      simpa using hlt'
    · have hcomp := r.complete_bytes
      rw [heq, List.take_length] at hpre
      rw [← hpre] at hcomp
      rw [handleRead_chunk c hn hfit hcomp]
      exact ⟨rfl, h1, h2, h3, _, rfl, hw', Or.inr ⟨by simp [ht], r, rest, rfl, hpre⟩⟩

/-- A worker answers the request in the buffer, if there is one. -/
theorem inv_work (h : Inv dispatch app reqs s old new) :
    ∃ old' new', Inv dispatch app reqs (s.runTask dispatch) old' new' := by
  obtain ⟨hsplit, h1, h2, h3, c, hc, hw, ⟨ht, hlt⟩ | ⟨ht, r, rest, rfl, hb⟩⟩ := h
  · refine ⟨old, new, ?_⟩
    rw [runTask, ht]
    exact ⟨hsplit, h1, h2, h3, c, hc, hw, Or.inl ⟨ht, hlt⟩⟩
  · refine ⟨old ++ [r], rest, ?_⟩
    rw [runTask, ht, hc]
    simp only [answer, hb, r.parse_bytes, Except.toOption]
    refine ⟨by simpa using hsplit, by simp [h1], ?_, ?_, ⟨_, rfl, ?_, Or.inl ⟨rfl, ?_⟩⟩⟩
    · simp [answers_append, answers, h2, h3]
    · simp [answers_append, answers, h3]
    · rw [wire_cons, hb] at hw
      exact List.append_cancel_left hw
    · intro r' rest' he
      have : r'.bytes ≠ [] := by rw [Canonical.bytes_eq]; simp [blankLine]
      exact List.length_pos_iff.2 this

/-- **Paced runs**: when nothing is pending, every request has been dispatched once and
    answered once. -/
theorem paced_answered (app : σ) (reqs : List Canonical) (run : List Label)
    (h : Run.Each (step dispatch) (fun s l => Fits s l ∧ Paced reqs s l) (start app reqs) run)
    (hend : ¬ Pending (Run.exec (step dispatch) (start app reqs) run)) :
    Answered dispatch app reqs (Run.exec (step dispatch) (start app reqs) run) := by
  have hstart : Inv dispatch app reqs (start app reqs) [] reqs :=
    ⟨rfl, rfl, rfl, rfl, _, rfl, rfl, Or.inl ⟨rfl, fun r rest _ => by
      have : r.bytes ≠ [] := by rw [Canonical.bytes_eq]; simp [blankLine]
      exact List.length_pos_iff.2 this⟩⟩
  have hinv := h.inv (I := fun s => ∃ old new, Inv dispatch app reqs s old new)
    (fun s l hs hl => by
      obtain ⟨old, new, hs⟩ := hs
      cases l with
      | chunk n => exact ⟨old, new, inv_chunk hs hl.1 hl.2⟩
      | work => exact inv_work hs) ⟨[], reqs, hstart⟩
  obtain ⟨old, new, hsplit, h1, h2, -, c, -, hw, ht⟩ := hinv
  simp only [Pending, ne_eq, not_or, not_not] at hend
  rcases ht with ⟨-, hlt⟩ | ⟨ht, -⟩
  swap
  · exact absurd hend.2 (by omega)
  -- A request that is left would be in the buffer whole.
  cases new with
  | nil =>
    obtain rfl : reqs = old := by simpa using hsplit
    exact ⟨h1, h2⟩
  | cons r rest =>
    have := hlt r rest rfl
    have hlen := congrArg List.length hw
    rw [hend.1] at hlen
    simp only [wire_cons, List.length_append, List.length_nil] at hlen
    omega

end

/-! ## Two requests without a body -/

def ping : Canonical where
  method := .GET
  target := lit "/"
  version := lit "HTTP/1.1"
  headers := [(contentLengthKey, lit "0")]
  body := []
  method_known := by decide
  target_space := by decide
  target_plain := ⟨by decide, by decide⟩
  version_space := by decide
  version_plain := ⟨by decide, by decide⟩
  headers_plain := by
    intro h hm
    rw [List.mem_singleton.1 hm]
    exact ⟨by decide, by decide, ⟨by decide, by decide⟩, ⟨by decide, by decide⟩⟩
  headers_nodup := by decide
  body_le := by decide
  length_present := by decide
  length_value := by decide

/-- A router that always answers 200. -/
def pong (_ : Request) (app : Unit) : Response × Unit := ({}, app)

/-- The second request comes in two chunks, after the worker has run. -/
theorem ping_paced :
    Answered pong () [ping, ping] (Run.exec (step pong) (start () [ping, ping])
      [.chunk 37, .work, .chunk 30, .chunk 7, .work]) :=
  paced_answered () [ping, ping] _ (by decide +kernel) (by decide +kernel)

/-- Two requests in one chunk: one worker task takes both, and the second is lost.  In two chunks
    before the first worker: the second task finds the buffer empty, and answers 400. -/
theorem pipelined_lost :
    (Run.Each (step pong) Fits (start () [ping, ping]) [.chunk 74, .work] ∧
      ¬ Pending (Run.exec (step pong) (start () [ping, ping]) [.chunk 74, .work]) ∧
      ¬ Answered pong () [ping, ping]
        (Run.exec (step pong) (start () [ping, ping]) [.chunk 74, .work])) ∧
    (Run.exec (step pong) (start () [ping, ping])
      [.chunk 37, .chunk 37, .work, .work]).enqueued.map Response.status = [200, 400] := by
  refine ⟨⟨by decide +kernel, by decide +kernel, ?_⟩, by decide +kernel⟩
  rintro ⟨h, -⟩
  have hlen : (Run.exec (step pong) (start () [ping, ping])
      [.chunk 74, .work]).dispatched.length = 1 := by decide +kernel
  rw [h] at hlen
  cases hlen

end Exchange

end NarMusic
