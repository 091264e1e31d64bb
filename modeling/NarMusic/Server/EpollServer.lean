/-
  The server: its connections, its queues and the event loop
  (`core/epoll_server.cpp`).

  * A label is an event of the loop, a round of `processPendingWrites`, a step of
    a worker, or the passing of time; it carries the results of the system calls.
  * Workers run between any two of these.  The event loop handles no event while
    `writes`, the local vector of `processPendingWrites`, is not empty.
  * An event for a number without a connection does nothing.  What is left out by this are
    the events of a batch of `epoll_wait` whose descriptor an earlier event of the batch has
    closed: the source reads from, and closes, whatever has the number by then.
  * The kernel hands out descriptors that are not open (`Enabled`); `desc` says
    what each open descriptor is.
  * `log` records what happened, for the statements about runs.
-/
import Mathlib.Data.List.AList
import NarMusic.Server.Connection
import NarMusic.Lib.Run

namespace NarMusic

open Cxx

/-- What an open descriptor is: the socket of an accepted connection, or a file opened for one. -/
inductive Desc where
  | sock (peer : ℕ)
  | file (peer : ℕ)
  deriving DecidableEq

/-- A pair of `pendingWrites_`. -/
structure Pending where
  fd : Fd
  tag : Tag
  response : Response

/-- A worker that has taken the buffer of a connection. -/
structure Taken where
  fd : Fd
  origin : ℕ
  taskData : Str

inductive Event where
  /-- An effect on the connection of `peer`. -/
  | effect (time peer : ℕ) (e : Effect)
  /-- `cleanupTimeouts` closes the connection of `peer`. -/
  | swept (time peer : ℕ)
  /-- A worker has made a response from `taskData`. -/
  | enqueued (tag : Tag) (taskData : Str) (response : Response)
  deriving DecidableEq

structure Server (σ : Type) where
  connections : AList fun _ : Fd => Connection
  pendingWrites : List Pending
  writes : List Pending
  tasks : List Fd
  taken : List Taken
  app : σ
  running : Bool
  /-- An exception has left the event loop. -/
  terminated : Bool
  now : ℕ
  accepted : ℕ
  serial : ℕ
  desc : Fd → Option Desc
  log : List Event

/-- `handleAccept` on an entry of `connections_`, which is made if there is none. -/
def Connection.accept (old : Option Connection) (peer now : ℕ) : Connection :=
  { old.getD { peer } with
    peer, lastActive := now, readBuffer := [], writeBuffer := [], written := 0,
    isFileStream := false, fileFd := none }

/-- The descriptors after an effect on the connection of `peer`, whose socket is `fd`. -/
def kernel (fd : Fd) (peer : ℕ) (desc : Fd → Option Desc) : Effect → Fd → Option Desc
  | .opened fileFd => Function.update desc fileFd (some (.file peer))
  | .closedFile fileFd => Function.update desc fileFd none
  | .closed => Function.update desc fd none
  | _ => desc

namespace Server

inductive Label where
  | accept (fd : Fd)
  | readable (fd : Fd) (reads : List ReadResult)
  | writable (fd : Fd) (outs : List IoResult)
  /-- `EPOLLERR` or `EPOLLHUP`. -/
  | hangup (fd : Fd)
  | timer
  /-- `processPendingWrites` takes the queue. -/
  | wakeup
  /-- `processPendingWrites` comes to the next response. -/
  | flush (io : Connection.FlushIo)
  /-- The `i`-th queued task takes the buffer of its connection. -/
  | take (i : ℕ)
  /-- The `i`-th worker parses, dispatches and enqueues. -/
  | finish (i : ℕ)
  | tick (dt : ℕ)
  | stop

/-! ## Steps -/

/-- The table once a handler has left `conn` at `fd`. -/
def place (connections : AList fun _ : Fd => Connection) (fd : Fd) (conn : Option Connection) :
    AList fun _ : Fd => Connection :=
  match conn with
  | some c => connections.insert fd c
  | none => connections.erase fd

theorem lookup_place (connections : AList fun _ : Fd => Connection) (fd : Fd)
    (conn : Option Connection) (fd' : Fd) :
    (place connections fd conn).lookup fd' = if fd' = fd then conn else connections.lookup fd' := by
  unfold place
  split_ifs with h
  · subst h
    cases conn
    · exact AList.lookup_erase fd' connections
    · exact AList.lookup_insert connections
  · cases conn
    · exact AList.lookup_erase_ne h
    · exact AList.lookup_insert_ne h

/-- An entry of the table is what the handler has left, or another than that at `fd`. -/
theorem place_cases {connections : AList fun _ : Fd => Connection} {fd fd' : Fd}
    {conn : Option Connection} {c' : Connection} (h : (place connections fd conn).lookup fd' = some c') :
    fd' = fd ∧ conn = some c' ∨ fd' ≠ fd ∧ connections.lookup fd' = some c' := by
  rw [lookup_place] at h
  split_ifs at h with hfd
  · exact Or.inl ⟨hfd, h⟩
  · exact Or.inr ⟨hfd, h⟩

section
variable {σ : Type} (dispatch : Request → σ → Except Exn Response × σ) (connectionTimeout : ℤ)

/-- The outcome of a handler on the connection at `fd`. -/
def act (s : Server σ) (fd : Fd) (peer : ℕ) (o : Outcome) : Server σ :=
  { s with
    connections := place s.connections fd o.conn
    desc := o.effects.foldl (kernel fd peer) s.desc
    log := s.log ++ o.effects.map (.effect s.now peer) }

/-- A handler runs on the connection at `fd`, if there is one. -/
def on (s : Server σ) (fd : Fd) (handler : Connection → Outcome) : Server σ :=
  match s.connections.lookup fd with
  | none => s
  | some c => s.act fd c.peer (handler c)

def handleAccept (s : Server σ) (fd : Fd) : Server σ :=
  { s with
    connections := s.connections.insert fd (.accept (s.connections.lookup fd) s.accepted s.now)
    accepted := s.accepted + 1
    desc := Function.update s.desc fd (some (.sock s.accepted)) }

/-- Nothing is read where `fd` is no connection. -/
def handleRead (s : Server σ) (fd : Fd) (reads : List ReadResult) : Server σ :=
  match s.connections.lookup fd with
  | none => s
  | some c =>
    match c.handleRead s.now reads with
    | .error _ => { s with terminated := true }
    | .ok (o, detach) =>
      { s.act fd c.peer o with tasks := if detach then s.tasks ++ [fd] else s.tasks }

/-- One round of `cleanupTimeouts`. -/
def sweepOne (s : Server σ) (fd : Fd) : Server σ :=
  match s.connections.lookup fd with
  | none => s
  | some c =>
    if c.expired connectionTimeout s.now then
      { s with log := s.log ++ [Event.swept s.now c.peer] }.act fd c.peer c.drop
    else s

def cleanupTimeouts (s : Server σ) : Server σ :=
  s.connections.keys.foldl (sweepOne connectionTimeout) s

/-- `stop` drops every connection. -/
def stop (s : Server σ) : Server σ :=
  s.connections.keys.foldl (fun s fd => s.on fd Connection.drop) { s with running := false }

def processPending (s : Server σ) (io : Connection.FlushIo) : Server σ :=
  match s.writes with
  | [] => s
  | w :: writes => { s with writes }.on w.fd fun c => c.deliver w.tag w.response io

/-- A worker takes the buffer `c.readBuffer`. -/
def take (s : Server σ) (fd : Fd) (c : Connection) : Server σ :=
  { s.act fd c.peer c.moveBuffer with
    taken := s.taken ++ [⟨fd, c.peer, c.readBuffer⟩] }

def takeBuffer (s : Server σ) (i : ℕ) : Server σ :=
  match s.tasks[i]? with
  | none => s
  | some fd =>
    let s := { s with tasks := s.tasks.eraseIdx i }
    match s.connections.lookup fd with
    | none => s
    | some c => s.take fd c

def enqueueResponse (s : Server σ) (t : Taken) (response : Response) : Server σ :=
  { s with
    pendingWrites := s.pendingWrites ++ [⟨t.fd, ⟨s.serial, t.origin⟩, response⟩]
    serial := s.serial + 1
    log := s.log ++ [.enqueued ⟨s.serial, t.origin⟩ t.taskData response] }

def finishTask (s : Server σ) (i : ℕ) : Server σ :=
  match s.taken[i]? with
  | none => s
  | some t =>
    let a := answer dispatch t.taskData s.app
    let s := { s with taken := s.taken.eraseIdx i, app := a.app }
    match a.response with
    | none => s
    | some response => s.enqueueResponse t response

/-- The event loop is waiting for events. -/
def Idle (s : Server σ) : Prop := s.running = true ∧ s.writes = []

/-- What the kernel and the loop allow. -/
def Enabled (s : Server σ) : Label → Prop
  | .accept fd => s.Idle ∧ s.desc fd = none
  | .readable .. | .writable .. | .hangup _ | .timer | .wakeup => s.Idle
  | .flush io => ∀ fileFd ∈ io.opened, s.desc fileFd = none
  | .take _ | .finish _ | .tick _ | .stop => True

instance (s : Server σ) : Decidable s.Idle :=
  @instDecidableAnd _ _ _ (decidable_of_iff (s.writes.isEmpty = true) List.isEmpty_iff)

instance (s : Server σ) : (l : Label) → Decidable (Enabled s l)
  | .accept fd => inferInstanceAs (Decidable (s.Idle ∧ s.desc fd = none))
  | .readable .. | .writable .. | .hangup _ | .timer | .wakeup => inferInstanceAs (Decidable s.Idle)
  | .flush io => inferInstanceAs (Decidable (∀ fileFd ∈ io.opened, s.desc fileFd = none))
  | .take _ | .finish _ | .tick _ | .stop => instDecidableTrue

def perform (s : Server σ) : Label → Server σ
  | .accept fd => s.handleAccept fd
  | .readable fd reads => s.handleRead fd reads
  | .writable fd outs => s.on fd fun c => c.handleWrite outs
  | .hangup fd => s.on fd Connection.drop
  | .timer => s.cleanupTimeouts connectionTimeout
  | .wakeup => { s with writes := s.pendingWrites, pendingWrites := [] }
  | .flush io => s.processPending io
  | .take i => s.takeBuffer i
  | .finish i => s.finishTask dispatch i
  | .tick dt => { s with now := s.now + dt }
  | .stop => s.stop

def step (s : Server σ) (l : Label) : Server σ :=
  if s.terminated = false ∧ Enabled s l then s.perform dispatch connectionTimeout l else s

/-- The server before its first event. -/
def start (app : σ) : Server σ where
  connections := ∅
  pendingWrites := []
  writes := []
  tasks := []
  taken := []
  app := app
  running := true
  terminated := false
  now := 0
  accepted := 0
  serial := 0
  desc := fun _ => none
  log := []

/-- A request without a body, for the runs on fixed inputs. -/
def ask : Str := lit "GET / HTTP/1.1\r\nA: b\r\n\r\n"

/-! ## Rules -/

variable {dispatch connectionTimeout} {I : Server σ → Prop} {s : Server σ}

theorem on_inv {fd : Fd} {handler : Connection → Outcome} (h : I s)
    (hact : ∀ c, s.connections.lookup fd = some c → I (s.act fd c.peer (handler c))) :
    I (s.on fd handler) := by
  unfold on
  cases hc : s.connections.lookup fd with
  | none => exact h
  | some c => exact hact c hc

theorem handleRead_inv {fd : Fd} {reads : List ReadResult} (h : I s)
    (hterm : I { s with terminated := true })
    (hact : ∀ c o detach, s.connections.lookup fd = some c →
      c.handleRead s.now reads = .ok (o, detach) →
      I { s.act fd c.peer o with tasks := if detach then s.tasks ++ [fd] else s.tasks }) :
    I (s.handleRead fd reads) := by
  unfold handleRead
  cases hc : s.connections.lookup fd with
  | none => exact h
  | some c =>
    cases hr : c.handleRead s.now reads with
    | error e => simpa only [hr] using hterm
    | ok r => simpa only [hr] using hact c r.1 r.2 hc hr

theorem processPending_inv {io : Connection.FlushIo} (h : I s)
    (hskip : ∀ w writes, s.writes = w :: writes → s.connections.lookup w.fd = none →
      I { s with writes })
    (hact : ∀ w writes c, s.writes = w :: writes → s.connections.lookup w.fd = some c →
      I ({ s with writes }.act w.fd c.peer (c.deliver w.tag w.response io))) :
    I (s.processPending io) := by
  unfold processPending
  split
  · exact h
  case h_2 w writes hw =>
    unfold on
    simp only
    split
    · exact hskip w writes hw ‹_›
    · exact hact w writes _ hw ‹_›

theorem takeBuffer_inv {i : ℕ} (h : I s)
    (htasks : ∀ tasks, I { s with tasks })
    (htake : ∀ tasks fd c, s.connections.lookup fd = some c → I ({ s with tasks }.take fd c)) :
    I (s.takeBuffer i) := by
  unfold takeBuffer
  split
  · exact h
  case h_2 fd _ =>
    simp only
    split
    · exact htasks _
    · exact htake _ fd _ ‹_›

theorem finishTask_inv {i : ℕ} (h : I s)
    (hfinish : ∀ t app, s.taken[i]? = some t →
      I { s with taken := s.taken.eraseIdx i, app } ∧
        ∀ response, I ({ s with taken := s.taken.eraseIdx i, app }.enqueueResponse t response)) :
    I (s.finishTask dispatch i) := by
  unfold finishTask
  split
  · exact h
  case h_2 t ht =>
    simp only
    split
    · exact (hfinish t _ ht).1
    · exact (hfinish t _ ht).2 _

theorem act_lookup_none {fd fd' : Fd} {peer : ℕ} {es : List Effect} {c : Connection}
    (h : (s.act fd peer ⟨none, es⟩).connections.lookup fd' = some c) :
    fd' ≠ fd ∧ s.connections.lookup fd' = some c := by
  have h : (place s.connections fd none).lookup fd' = some c := h
  rw [lookup_place] at h
  split_ifs at h with hfd
  exact ⟨hfd, h⟩

/-- Induction over a loop that drops connections: what is dropped was there before the loop. -/
theorem drop_loop {round : Server σ → Fd → Server σ}
    (hround : ∀ s' fd, I s' → s'.now = s.now →
      (∀ fd c, s'.connections.lookup fd = some c → s.connections.lookup fd = some c) →
      I (round s' fd) ∧ (round s' fd).now = s.now ∧
        ∀ fd' c, (round s' fd).connections.lookup fd' = some c →
          s'.connections.lookup fd' = some c)
    (fds : List Fd) (h : I s) : I (fds.foldl round s) := by
  have key : ∀ (fds : List Fd) (s' : Server σ), I s' → s'.now = s.now →
      (∀ fd c, s'.connections.lookup fd = some c → s.connections.lookup fd = some c) →
      I (fds.foldl round s') := by
    intro fds
    induction fds with
    | nil => exact fun s' hi _ _ => hi
    | cons fd fds ih =>
      intro s' hi hnow hsub
      obtain ⟨hi', hnow', hsub'⟩ := hround s' fd hi hnow hsub
      exact ih _ hi' hnow' fun fd' c hc => hsub fd' c (hsub' fd' c hc)
  exact key fds s h rfl fun _ _ hc => hc

theorem cleanupTimeouts_inv (h : I s)
    (hact : ∀ s' fd c, I s' → s'.connections.lookup fd = some c →
      s.connections.lookup fd = some c → c.expired connectionTimeout s'.now → s'.now = s.now →
      I ({ s' with log := s'.log ++ [Event.swept s'.now c.peer] }.act fd c.peer c.drop)) :
    I (s.cleanupTimeouts connectionTimeout) := by
  refine drop_loop (fun s' fd hi hnow hsub => ?_) _ h
  unfold sweepOne
  cases hc : s'.connections.lookup fd with
  | none => exact ⟨hi, hnow, fun _ _ h => h⟩
  | some c =>
    by_cases he : c.expired connectionTimeout s'.now
    · simp only [if_pos he]
      exact ⟨hact s' fd c hi hc (hsub fd c hc) he hnow, hnow, fun fd' c' h => (act_lookup_none h).2⟩
    · simp only [if_neg he]
      exact ⟨hi, hnow, fun _ _ h => h⟩

theorem stop_inv (h : I { s with running := false })
    (hact : ∀ s' fd c, I s' → s'.connections.lookup fd = some c →
      s.connections.lookup fd = some c → I (s'.act fd c.peer c.drop)) :
    I s.stop := by
  refine drop_loop (s := { s with running := false })
    (fun s' fd hi hnow hsub => ?_) _ h
  unfold on
  cases hc : s'.connections.lookup fd with
  | none => exact ⟨hi, hnow, fun _ _ h => h⟩
  | some c => exact ⟨hact s' fd c hi hc (hsub fd c hc), hnow, fun fd' c' h => (act_lookup_none h).2⟩

/-- A step that is not allowed changes nothing. -/
theorem step_inv {l : Label} (h : I s)
    (hstep : s.terminated = false → Enabled s l → I (s.perform dispatch connectionTimeout l)) :
    I (s.step dispatch connectionTimeout l) := by
  unfold step
  split_ifs with hl
  · exact hstep hl.1 hl.2
  · exact h

end

end Server

end NarMusic
