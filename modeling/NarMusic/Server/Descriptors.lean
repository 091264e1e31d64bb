/-
  The descriptors of the server, in every run.

  * `Net`: what a handler does to the descriptors, on balance.  It may lose the
    file of the connection: drop it from `fileFd` and leave it open.
  * `Owned`: each connection has its own socket, and the file it streams is open
    and its own.
-/
import NarMusic.Server.EpollServer

namespace NarMusic

open Cxx

variable {c : Connection} {fd : Fd} {desc : Fd → Option Desc} {loss : Prop}

/-- What a handler of the connection `c` at `fd` leaves, and the descriptors then.  It loses the
    file of `c`, if there is one, only if `loss`. -/
inductive Net (c : Connection) (fd : Fd) (desc : Fd → Option Desc) (loss : Prop) :
    Option Connection → (Fd → Option Desc) → Prop
  | kept {c' : Connection} : c'.peer = c.peer → c'.fileFd = c.fileFd →
      (c'.fileFd ≠ none → c'.isFileStream = c.isFileStream) → Net c fd desc loss (some c') desc
  | done {c' : Connection} {fileFd : Fd} : c'.peer = c.peer → c.fileFd = some fileFd →
      c'.fileFd = none → Net c fd desc loss (some c') (Function.update desc fileFd none)
  | opened {c' : Connection} {fileFd : Fd} : c'.peer = c.peer → c.fileFd = none ∨ loss →
      desc fileFd = none → c'.fileFd = some fileFd → c'.isFileStream = true →
      Net c fd desc loss (some c') (Function.update desc fileFd (some (.file c.peer)))
  | through {c' : Connection} : c'.peer = c.peer → c.fileFd = none ∨ loss → c'.fileFd = none →
      Net c fd desc loss (some c') desc
  | gone : c.fileFd = none ∨ loss → Net c fd desc loss none (Function.update desc fd none)
  | closed {fileFd : Fd} : c.fileFd = some fileFd →
      Net c fd desc loss none (Function.update (Function.update desc fileFd none) fd none)

theorem update_none_eq_some {f x : Fd} {d : Desc} :
    Function.update desc f none x = some d ↔ x ≠ f ∧ desc x = some d := by
  rw [Function.update_apply]
  split_ifs with h <;> simp [h]

theorem update_some_eq_some {f x : Fd} {d e : Desc} :
    Function.update desc f (some e) x = some d ↔ x = f ∧ e = d ∨ x ≠ f ∧ desc x = some d := by
  rw [Function.update_apply]
  split_ifs with h <;> simp [h]

/-- The outcome of a handler. -/
def Outcome.Net (o : Outcome) (c : Connection) (fd : Fd) (desc : Fd → Option Desc) (loss : Prop) : Prop :=
  NarMusic.Net c fd desc loss o.conn (o.effects.foldl (kernel fd c.peer) desc)

/-- Effects that leave the descriptors as they are. -/
def Effect.Inert : Effect → Prop
  | .opened _ | .closedFile _ | .closed => False
  | _ => True

theorem kernel_inert {peer : ℕ} {es : List Effect} (h : ∀ e ∈ es, e.Inert) :
    es.foldl (kernel fd peer) desc = desc := by
  induction es generalizing desc with
  | nil => rfl
  | cons e es ih =>
    obtain ⟨he, hes⟩ := List.forall_mem_cons.1 h
    cases e <;> first | exact ih hes | exact he.elim

theorem chunks_inert (fileFd : Fd) (outs : List IoResult) : ∀ e ∈ c.chunks fileFd outs, e.Inert := by
  simp [Connection.chunks, Effect.Inert]

theorem unlinkCleanup_inert : ∀ e ∈ c.unlinkCleanup, e.Inert := by
  unfold Connection.unlinkCleanup
  split_ifs <;> simp [Effect.Inert]

theorem seekStart_inert (info : FileStreamInfo) (fileFd : Fd) :
    ∀ e ∈ Connection.seekStart info fileFd, e.Inert := by
  unfold Connection.seekStart
  split_ifs <;> simp [Effect.Inert]

theorem sendResponse_inert (tag : Tag) (text : Str) (outs : List IoResult) :
    (∀ e ∈ (c.sendResponse tag text outs).2, e.Inert) ∧
      (c.sendResponse tag text outs).1.peer = c.peer ∧
      (c.sendResponse tag text outs).1.fileFd = c.fileFd ∧
      (c.sendResponse tag text outs).1.isFileStream = c.isFileStream := by
  unfold Connection.sendResponse
  split_ifs with h
  · simp only
    split_ifs <;> simp [Effect.Inert]
  · simp [Effect.Inert]

/-! ## Handlers -/

theorem net_sendFileChunked (outs : List IoResult) : (c.sendFileChunked outs).Net c fd desc loss := by
  unfold Outcome.Net
  rcases c.sendFileChunked_cases outs with ⟨hf, h⟩ | ⟨fileFd, hf, ⟨-, h⟩ | ⟨-, h⟩ | ⟨-, h⟩⟩ <;> rw [h]
  · exact .kept rfl rfl fun h => absurd hf h
  · simp only [kernel_inert (chunks_inert fileFd outs)]
    exact .kept rfl rfl fun _ => rfl
  · simp only [List.foldl_append, List.foldl_cons, List.foldl_nil,
      kernel_inert (chunks_inert fileFd outs), kernel_inert unlinkCleanup_inert, kernel]
    exact .closed hf
  · simp only [List.foldl_append, List.foldl_cons, kernel_inert (chunks_inert fileFd outs),
      kernel_inert unlinkCleanup_inert, kernel]
    exact .done rfl hf rfl

theorem net_drop : c.drop.Net c fd desc loss := by
  unfold Outcome.Net Connection.drop Connection.closeFile
  cases hf : c.fileFd with
  | none => exact .gone (Or.inl hf)
  | some fileFd => exact .closed hf

theorem net_handleWrite (outs : List IoResult) (hl : c.fileFd ≠ none → c.isFileStream = true) :
    (c.handleWrite outs).Net c fd desc loss := by
  rcases c.handleWrite_cases outs with ⟨-, h⟩ | ⟨hs, data, rest, -, -, ⟨-, h⟩ | h | h⟩
  · rw [h]
    exact net_sendFileChunked outs
  all_goals unfold Outcome.Net; rw [h]
  · exact .kept rfl rfl fun _ => rfl
  · exact .kept rfl rfl fun _ => rfl
  · refine .gone (Or.inl ?_)
    by_contra hf
    exact hs ⟨hl hf, hf⟩

/-- `deliver` loses the file of the connection when a file response comes. -/
theorem net_deliver (tag : Tag) {resp : Response} {io : Connection.FlushIo}
    (hl : resp.isFileStream → c.fileFd = none ∨ loss) (ho : ∀ fileFd ∈ io.opened, desc fileFd = none) :
    (c.deliver tag resp io).Net c fd desc loss := by
  unfold Outcome.Net
  obtain ⟨hes, hpeer, hfile, hstream⟩ := sendResponse_inert (c := c) tag resp.text io.outs
  by_cases hresp : resp.isFileStream
  · cases hopen : io.opened with
    | none =>
      rw [c.deliver_unopened tag hresp hopen]
      simp only [List.foldl_append, kernel_inert hes, List.foldl_cons, List.foldl_nil, kernel]
      exact .gone (hl hresp)
    | some fileFd =>
      rw [c.deliver_opened tag hresp hopen]
      simp only [List.foldl_append, kernel_inert hes, List.foldl_cons,
        kernel_inert (seekStart_inert _ _), kernel]
      have hfree := ho fileFd hopen
      have hclose : ∀ d, Function.update (Function.update desc fileFd d) fileFd none = desc := by
        intro d
        rw [Function.update_idem, ← hfree, Function.update_eq_self]
      generalize hc₁ : (c.sendResponse tag resp.text io.outs).1.startStream tag resp.fileStreamInfo
        fileFd = c₁
      have hpeer₁ : c₁.peer = c.peer := by rw [← hc₁]; exact hpeer
      have hfile₁ : c₁.fileFd = some fileFd := by rw [← hc₁]; rfl
      rcases c₁.sendFileChunked_cases io.fileOuts with ⟨hf, -⟩ | ⟨f, hf, ⟨-, h⟩ | ⟨-, h⟩ | ⟨-, h⟩⟩
      · rw [hfile₁] at hf
        cases hf
      all_goals
        obtain rfl : fileFd = f := Option.some.inj (hfile₁.symm.trans hf)
        rw [h]
      · simp only [kernel_inert (chunks_inert _ _)]
        exact .opened hpeer₁ (hl hresp) hfree hf (by rw [← hc₁]; rfl)
      · simp only [List.foldl_append, List.foldl_cons, List.foldl_nil,
          kernel_inert (chunks_inert _ _), kernel_inert unlinkCleanup_inert, kernel, hclose]
        exact .gone (hl hresp)
      · simp only [List.foldl_append, List.foldl_cons, kernel_inert (chunks_inert _ _),
          kernel_inert unlinkCleanup_inert, kernel, hclose]
        exact .through hpeer₁ (hl hresp) rfl
  · rw [c.deliver_text tag io hresp]
    simp only [kernel_inert hes]
    exact .kept hpeer hfile fun _ => hstream

theorem net_moveBuffer : c.moveBuffer.Net c fd desc loss := .kept rfl rfl fun _ => rfl

/-- `handleRead` loses the file of the connection when it closes it. -/
theorem net_handleRead {now : ℕ} {reads : List ReadResult} {o : Outcome} {detach : Bool}
    (hr : c.handleRead now reads = .ok (o, detach)) (hl : c.Ends reads → c.fileFd = none ∨ loss) :
    o.Net c fd desc loss := by
  rcases Connection.handleRead_cases hr with ⟨hend, rfl, -⟩ | ⟨rfl, -⟩ | ⟨-, rfl, -⟩
  · exact .gone (hl hend)
  · exact .kept rfl rfl fun _ => rfl
  · exact .kept rfl rfl fun _ => rfl

/-! ## Every run -/

/-- Each connection has its own socket; the file it streams is open, and its own. -/
structure Owned (conns : AList fun _ : Fd => Connection) (desc : Fd → Option Desc) (accepted : ℕ) :
    Prop where
  sock : ∀ fd c, conns.lookup fd = some c → desc fd = some (.sock c.peer)
  file : ∀ fd c f, conns.lookup fd = some c → c.fileFd = some f → desc f = some (.file c.peer)
  stream : ∀ fd c, conns.lookup fd = some c → c.fileFd ≠ none → c.isFileStream = true
  inj : ∀ fd fd' p, desc fd = some (.sock p) → desc fd' = some (.sock p) → fd = fd'
  lt : ∀ fd p, desc fd = some (.sock p) ∨ desc fd = some (.file p) → p < accepted

section
variable {conns : AList fun _ : Fd => Connection} {accepted : ℕ} {conn : Option Connection}
  {desc' : Fd → Option Desc}

theorem Owned.peer_inj (h : Owned conns desc accepted) {fd' : Fd} {c' : Connection}
    (hc : conns.lookup fd = some c) (hc' : conns.lookup fd' = some c') (hpeer : c.peer = c'.peer) :
    fd = fd' :=
  h.inj fd fd' c.peer (h.sock fd c hc) (hpeer ▸ h.sock fd' c' hc')

theorem Owned.accept (h : Owned conns desc accepted) (hfd : desc fd = none) (now : ℕ) :
    Owned (conns.insert fd (.accept (conns.lookup fd) accepted now))
      (Function.update desc fd (some (.sock accepted))) (accepted + 1) := by
  have hentry : ∀ fd' c', (Server.place conns fd
      (some (.accept (conns.lookup fd) accepted now))).lookup fd' = some c' →
      fd' = fd ∧ .accept (conns.lookup fd) accepted now = c' ∨ fd' ≠ fd ∧ conns.lookup fd' = some c' :=
    fun _ _ hc' => (Server.place_cases hc').imp_left fun h => ⟨h.1, Option.some.inj h.2⟩
  have hne : ∀ x d, desc x = some d → x ≠ fd := by
    rintro x d hx rfl
    rw [hfd] at hx
    cases hx
  constructor
  case sock =>
    intro fd' c' hc'
    rcases hentry fd' c' hc' with ⟨rfl, rfl⟩ | ⟨hfd', hc'⟩
    · exact update_some_eq_some.2 (Or.inl ⟨rfl, rfl⟩)
    · exact update_some_eq_some.2 (Or.inr ⟨hfd', h.sock fd' c' hc'⟩)
  case file =>
    intro fd' c' f hc' hf
    rcases hentry fd' c' hc' with ⟨rfl, rfl⟩ | ⟨-, hc'⟩
    · cases hf
    · have hf := h.file fd' c' f hc' hf
      exact update_some_eq_some.2 (Or.inr ⟨hne f _ hf, hf⟩)
  case stream =>
    intro fd' c' hc' hf
    rcases hentry fd' c' hc' with ⟨rfl, rfl⟩ | ⟨-, hc'⟩
    · exact absurd rfl hf
    · exact h.stream fd' c' hc' hf
  case inj =>
    -- the new peer number is on no socket yet
    intro x x' p hx hx'
    rcases update_some_eq_some.1 hx with ⟨rfl, hp⟩ | ⟨-, hold⟩ <;>
      rcases update_some_eq_some.1 hx' with ⟨rfl, hp'⟩ | ⟨-, hold'⟩
    · rfl
    · obtain rfl := Desc.sock.inj hp
      exact absurd (h.lt _ _ (Or.inl hold')) (lt_irrefl _)
    · obtain rfl := Desc.sock.inj hp'
      exact absurd (h.lt _ _ (Or.inl hold)) (lt_irrefl _)
    · exact h.inj x x' p hold hold'
  case lt =>
    intro x p hx
    rcases hx with hx | hx <;> rcases update_some_eq_some.1 hx with ⟨-, hp⟩ | ⟨-, hx⟩
    · exact (Desc.sock.inj hp).symm ▸ Nat.lt_succ_self accepted
    · exact (h.lt x p (Or.inl hx)).trans (Nat.lt_succ_self accepted)
    · cases hp
    · exact (h.lt x p (Or.inr hx)).trans (Nat.lt_succ_self accepted)

/-- A handler makes and closes descriptors of its own connection only. -/
theorem Net.frame (hn : Net c fd desc loss conn desc') (hsock : desc fd = some (.sock c.peer))
    (hfile : ∀ f, c.fileFd = some f → desc f = some (.file c.peer)) :
    (∀ x d, desc' x = some d → desc x = some d ∨ d = .file c.peer) ∧
      ∀ x d, desc x = some d → d ≠ .file c.peer → d ≠ .sock c.peer → desc' x = some d := by
  cases hn with
  | kept | through => exact ⟨fun x d h => Or.inl h, fun x d h _ _ => h⟩
  | done _ hf =>
    constructor
    · intro x d h
      exact Or.inl (update_none_eq_some.1 h).2
    · intro x d h hd _
      refine update_none_eq_some.2 ⟨?_, h⟩
      rintro rfl
      exact hd (Option.some.inj (h.symm.trans (hfile x hf)))
  | opened _ _ hfree =>
    constructor
    · intro x d h
      rcases update_some_eq_some.1 h with ⟨-, rfl⟩ | ⟨-, h⟩
      · exact Or.inr rfl
      · exact Or.inl h
    · intro x d h _ _
      refine update_some_eq_some.2 (Or.inr ⟨?_, h⟩)
      rintro rfl
      rw [hfree] at h
      cases h
  | gone =>
    constructor
    · intro x d h
      exact Or.inl (update_none_eq_some.1 h).2
    · intro x d h _ hd
      refine update_none_eq_some.2 ⟨?_, h⟩
      rintro rfl
      exact hd (Option.some.inj (h.symm.trans hsock))
  | closed hf =>
    constructor
    · intro x d h
      exact Or.inl (update_none_eq_some.1 (update_none_eq_some.1 h).2).2
    · intro x d h hd hd'
      refine update_none_eq_some.2 ⟨?_, update_none_eq_some.2 ⟨?_, h⟩⟩
      · rintro rfl
        exact hd' (Option.some.inj (h.symm.trans hsock))
      · rintro rfl
        exact hd (Option.some.inj (h.symm.trans (hfile x hf)))

/-- What a handler leaves of a connection. -/
theorem Net.own {c' : Connection} (hn : Net c fd desc loss (some c') desc')
    (hsock : desc fd = some (.sock c.peer))
    (hfile : ∀ f, c.fileFd = some f → desc f = some (.file c.peer))
    (hstream : c.fileFd ≠ none → c.isFileStream = true) :
    c'.peer = c.peer ∧ desc' fd = some (.sock c.peer) ∧
      (∀ f, c'.fileFd = some f → desc' f = some (.file c.peer)) ∧
      (c'.fileFd ≠ none → c'.isFileStream = true) := by
  cases hn with
  | kept hpeer hf hs =>
    exact ⟨hpeer, hsock, fun f h => hfile f (hf ▸ h), fun h => (hs h).trans (hstream (hf ▸ h))⟩
  | through hpeer _ hf =>
    exact ⟨hpeer, hsock, fun f h => absurd (hf.symm.trans h) (by simp), fun h => absurd hf h⟩
  | done hpeer hf hf' =>
    refine ⟨hpeer, update_none_eq_some.2 ⟨?_, hsock⟩,
      fun f h => absurd (hf'.symm.trans h) (by simp), fun h => absurd hf' h⟩
    rintro rfl
    have := hsock.symm.trans (hfile fd hf)
    simp at this
  | opened hpeer _ hfree hf hs =>
    refine ⟨hpeer, update_some_eq_some.2 (Or.inr ⟨?_, hsock⟩), fun f h => ?_, fun _ => hs⟩
    · rintro rfl
      rw [hfree] at hsock
      cases hsock
    · obtain rfl := Option.some.inj (hf.symm.trans h)
      exact update_some_eq_some.2 (Or.inl ⟨rfl, rfl⟩)

/-- An entry of the table is what the handler has left, or another connection. -/
theorem Owned.place_cases (h : Owned conns desc accepted) (hc : conns.lookup fd = some c)
    {conn : Option Connection} {fd' : Fd} {c' : Connection}
    (hc' : (Server.place conns fd conn).lookup fd' = some c') :
    fd' = fd ∧ conn = some c' ∨ fd' ≠ fd ∧ c'.peer ≠ c.peer ∧ conns.lookup fd' = some c' := by
  rcases Server.place_cases hc' with hconn | ⟨hfd, hc'⟩
  · exact Or.inl hconn
  · exact Or.inr ⟨hfd, fun hpeer => hfd (h.peer_inj hc' hc hpeer), hc'⟩

theorem Owned.act (h : Owned conns desc accepted) (hc : conns.lookup fd = some c)
    (hn : Net c fd desc loss conn desc') :
    Owned (Server.place conns fd conn) desc' accepted := by
  have hsock := h.sock fd c hc
  obtain ⟨hback, hkeep⟩ := hn.frame hsock fun f => h.file fd c f hc
  have hown : ∀ c', conn = some c' → _ := fun c' hconn => (hconn ▸ hn).own hsock
    (fun f => h.file fd c f hc) (h.stream fd c hc)
  constructor
  case sock =>
    intro fd' c' hc'
    rcases h.place_cases hc hc' with ⟨rfl, hconn⟩ | ⟨-, hne, hc'⟩
    · obtain ⟨hpeer, hs, -⟩ := hown c' hconn
      rwa [hpeer]
    · exact hkeep _ _ (h.sock fd' c' hc') (by simp) (by simpa using hne)
  case file =>
    intro fd' c' f hc' hf
    rcases h.place_cases hc hc' with ⟨rfl, hconn⟩ | ⟨-, hne, hc'⟩
    · obtain ⟨hpeer, -, hfile, -⟩ := hown c' hconn
      rw [hpeer]
      exact hfile f hf
    · exact hkeep _ _ (h.file fd' c' f hc' hf) (by simpa using hne) (by simp)
  case stream =>
    intro fd' c' hc' hf
    rcases h.place_cases hc hc' with ⟨rfl, hconn⟩ | ⟨-, -, hc'⟩
    · exact (hown c' hconn).2.2.2 hf
    · exact h.stream fd' c' hc' hf
  case inj =>
    intro x x' p hx hx'
    have hx := (hback _ _ hx).resolve_right (by simp)
    have hx' := (hback _ _ hx').resolve_right (by simp)
    exact h.inj x x' p hx hx'
  case lt =>
    intro x p hx
    rcases hx with hx | hx
    · exact h.lt x p (Or.inl ((hback _ _ hx).resolve_right (by simp)))
    · rcases hback _ _ hx with hx | hx
      · exact h.lt x p (Or.inr hx)
      · obtain rfl : p = c.peer := by simpa using hx
        exact h.lt fd c.peer (Or.inl hsock)

end

namespace Server

section
variable {σ : Type} {dispatch : Request → σ → Except Exn Response × σ} {connectionTimeout : ℤ}
  {s : Server σ}

/-- The server owns its descriptors. -/
def Owns (s : Server σ) : Prop := Owned s.connections s.desc s.accepted

theorem Owns.act (h : s.Owns) (hc : s.connections.lookup fd = some c) {o : Outcome}
    (hn : o.Net c fd s.desc True) : (s.act fd c.peer o).Owns := Owned.act h hc hn

theorem Owns.perform (h : s.Owns) {l : Label} (hl : Enabled s l) :
    (s.perform dispatch connectionTimeout l).Owns := by
  cases l with
  | accept fd => exact Owned.accept h hl.2 s.now
  | readable fd reads =>
    exact handleRead_inv h h fun c o detach hc hr =>
      Owned.act h hc (net_handleRead hr fun _ => Or.inr trivial)
  | writable fd outs =>
    exact on_inv h fun c hc => h.act hc (net_handleWrite outs (h.stream fd c hc))
  | hangup fd => exact on_inv h fun c hc => h.act hc net_drop
  | timer => exact cleanupTimeouts_inv h fun s' fd c hs' hc _ _ _ =>
      Owns.act (s := { s' with log := _ }) hs' hc net_drop
  | wakeup => exact h
  | flush io =>
    exact processPending_inv h (fun _ _ _ _ => h) fun w writes c _ hc =>
      Owned.act h hc (net_deliver w.tag (fun _ => Or.inr trivial) hl)
  | take i =>
    exact takeBuffer_inv h (fun _ => h) fun _ fd c hc => h.act hc net_moveBuffer
  | finish i => exact finishTask_inv h fun _ _ _ => ⟨h, fun _ => h⟩
  | tick dt => exact h
  | stop => exact stop_inv h fun s' fd c hs' hc _ => Owns.act hs' hc net_drop

theorem Owns.step (h : s.Owns) (l : Label) : (s.step dispatch connectionTimeout l).Owns :=
  step_inv h fun _ hl => h.perform hl

theorem start_owns (app : σ) : (start app).Owns := by
  refine ⟨?_, ?_, ?_, ?_, ?_⟩ <;> simp [start]

/-- **Every run** keeps the descriptors of the connections apart. -/
theorem run_owns (app : σ) (run : List Label) :
    (Run.exec (Server.step dispatch connectionTimeout) (start app) run).Owns :=
  Run.exec_inv (fun _ l h => h.step l) (start_owns app) run

/-- Induction over a run whose steps meet `P`: the steps that are not allowed change nothing, and
    the descriptors are kept apart throughout. -/
theorem run_induction {I : Server σ → Prop} {P : Server σ → Label → Prop}
    (hstep : ∀ s l, s.Owns → I s → Enabled s l → P s l → I (s.perform dispatch connectionTimeout l))
    {app : σ} (hstart : I (start app)) {run : List Label}
    (h : Run.Each (Server.step dispatch connectionTimeout)
      (fun s l => s.terminated = false ∧ Enabled s l → P s l) (start app) run) :
    I (Run.exec (Server.step dispatch connectionTimeout) (start app) run) := by
  refine (h.inv (I := fun s => s.Owns ∧ I s) ?_ ⟨start_owns app, hstart⟩).2
  intro s l hs hp
  obtain ⟨ho, hi⟩ := hs
  exact ⟨ho.step l, step_inv hi fun ht hl => hstep s l ho hi hl (hp ⟨ht, hl⟩)⟩

end

end Server

end NarMusic
