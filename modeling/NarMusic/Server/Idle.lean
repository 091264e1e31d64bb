/-
  The idle sweep.

  `lastActive` is set by `handleAccept` and `handleRead`, and not by the writes.
  `IdleSwept` says that a connection that `cleanupTimeouts` closes has neither
  received nor been sent a byte within `connection_timeout` seconds.  It holds in
  the runs whose writes come less than a second after `lastActive`
  (`prompt_idle`).
-/
import NarMusic.Server.Descriptors

namespace NarMusic

open Cxx

/-- One second of the clock. -/
def second : ℕ := 10 ^ 9

/-- The effect moves bytes. -/
def Effect.Transfers : Effect → Prop
  | .received data => data ≠ []
  | .sent _ data => data ≠ []
  | .sentFile _ _ n => n ≠ 0
  | _ => False

variable {c : Connection}

/-! ## Handlers -/

/-- A handler that leaves `lastActive` as it is, and moves bytes only if `moves`. -/
structure Outcome.Passive (o : Outcome) (c : Connection) (moves : Prop) : Prop where
  conn : ∀ c', o.conn = some c' → c'.peer = c.peer ∧ c'.lastActive = c.lastActive
  quiet : (∃ e ∈ o.effects, e.Transfers) → moves

theorem chunkLoop_quiet {fileEnd offset : ℤ} {outs : List IoResult} (h : granted outs = 0) :
    (Connection.chunkLoop fileEnd offset outs).1 = [] := by
  unfold Connection.chunkLoop
  split_ifs
  · match outs with
    | [] | .again :: _ | .failed :: _ => rfl
    | .wrote 0 :: _ => simp
    | .wrote (n + 1) :: _ => simp [granted] at h
  · rfl

theorem keep_conn {c' : Connection} (hpeer : c'.peer = c.peer) (hlast : c'.lastActive = c.lastActive) :
    ∀ d, some c' = some d → d.peer = c.peer ∧ d.lastActive = c.lastActive := by
  rintro d hd
  obtain rfl := Option.some.inj hd
  exact ⟨hpeer, hlast⟩

theorem no_conn {p : Connection → Prop} : ∀ d, (none : Option Connection) = some d → p d := by
  rintro d ⟨⟩

theorem sendFileChunked_passive (outs : List IoResult) :
    (c.sendFileChunked outs).Passive c (0 < granted outs) := by
  have hquiet : ∀ fileFd, (∃ e ∈ c.chunks fileFd outs, e.Transfers) → 0 < granted outs := by
    rintro fileFd ⟨e, he, -⟩
    by_contra h
    simp [Connection.chunks, chunkLoop_quiet (Nat.eq_zero_of_not_pos h)] at he
  have hunlink : ∀ e ∈ c.unlinkCleanup, ¬ e.Transfers := by
    unfold Connection.unlinkCleanup
    split_ifs <;> simp [Effect.Transfers]
  rcases c.sendFileChunked_cases outs with ⟨-, h⟩ | ⟨fileFd, -, ⟨-, h⟩ | ⟨-, h⟩ | ⟨-, h⟩⟩ <;> rw [h]
  · exact ⟨keep_conn rfl rfl, by simp⟩
  · exact ⟨keep_conn rfl rfl, hquiet fileFd⟩
  · refine ⟨no_conn, ?_⟩
    rintro ⟨e, he, ht⟩
    simp only [List.mem_append, List.mem_cons, List.not_mem_nil, or_false] at he
    rcases he with he | rfl | he | rfl
    · exact hquiet fileFd ⟨e, he, ht⟩
    · exact ht.elim
    · exact absurd ht (hunlink e he)
    · exact ht.elim
  · refine ⟨keep_conn rfl rfl, ?_⟩
    rintro ⟨e, he, ht⟩
    simp only [List.mem_append, List.mem_cons] at he
    rcases he with he | rfl | he
    · exact hquiet fileFd ⟨e, he, ht⟩
    · exact ht.elim
    · exact absurd ht (hunlink e he)

theorem handleWrite_passive (outs : List IoResult) :
    (c.handleWrite outs).Passive c (0 < granted outs) := by
  rcases c.handleWrite_cases outs with ⟨-, h⟩ | ⟨-, data, rest, -, hle, hcase⟩
  · rw [h]
    exact sendFileChunked_passive outs
  have hdata : data ≠ [] → 0 < granted outs := fun h =>
    (List.length_pos_iff.2 h).trans_le hle
  rcases hcase with ⟨-, h⟩ | h | h <;> rw [h]
  · exact ⟨keep_conn rfl rfl, by simpa [Effect.Transfers] using hdata⟩
  · exact ⟨keep_conn rfl rfl, by simpa [Effect.Transfers] using hdata⟩
  · exact ⟨no_conn, by simpa [Effect.Transfers] using hdata⟩

theorem sendResponse_passive (tag : Tag) (text : Str) (outs : List IoResult) :
    (c.sendResponse tag text outs).1.peer = c.peer ∧
      (c.sendResponse tag text outs).1.lastActive = c.lastActive ∧
      ((∃ e ∈ (c.sendResponse tag text outs).2, e.Transfers) → 0 < granted outs) := by
  have hle := Connection.sendLoop_le_granted text.length outs
  have hsent : text.take (Connection.sendLoop text.length outs).1 ≠ [] → 0 < granted outs := by
    intro h
    have := List.length_pos_iff.2 h
    rw [List.length_take] at this
    omega
  unfold Connection.sendResponse
  split_ifs
  · simp only
    split_ifs
    · exact ⟨rfl, rfl, by simpa [Effect.Transfers] using hsent⟩
    · exact ⟨rfl, rfl, by simpa [Effect.Transfers] using hsent⟩
  · exact ⟨rfl, rfl, by simp [Effect.Transfers]⟩

theorem deliver_passive (tag : Tag) (resp : Response) (io : Connection.FlushIo) :
    (c.deliver tag resp io).Passive c (0 < granted io.outs ∨ 0 < granted io.fileOuts) := by
  obtain ⟨hpeer, hlast, hquiet⟩ := sendResponse_passive (c := c) tag resp.text io.outs
  by_cases hresp : resp.isFileStream
  · cases hopen : io.opened with
    | none =>
      rw [c.deliver_unopened tag hresp hopen]
      refine ⟨no_conn, ?_⟩
      rintro ⟨e, he, ht⟩
      rcases List.mem_append.1 he with he | he
      · exact Or.inl (hquiet ⟨e, he, ht⟩)
      · rw [List.mem_singleton.1 he] at ht
        exact ht.elim
    | some fileFd =>
      rw [c.deliver_opened tag hresp hopen]
      obtain ⟨hconn, hfile⟩ := sendFileChunked_passive (c := (c.sendResponse tag resp.text
        io.outs).1.startStream tag resp.fileStreamInfo fileFd) io.fileOuts
      have hseek : ∀ e ∈ Connection.seekStart resp.fileStreamInfo fileFd, ¬ e.Transfers := by
        unfold Connection.seekStart
        split_ifs <;> simp [Effect.Transfers]
      constructor
      · intro c' hc'
        obtain ⟨h1, h2⟩ := hconn c' hc'
        exact ⟨h1.trans hpeer, h2.trans hlast⟩
      · rintro ⟨e, he, ht⟩
        simp only [List.mem_append, List.mem_cons] at he
        rcases he with he | rfl | he | he
        · exact Or.inl (hquiet ⟨e, he, ht⟩)
        · exact ht.elim
        · exact absurd ht (hseek e he)
        · exact Or.inr (hfile ⟨e, he, ht⟩)
  · rw [c.deliver_text tag io hresp]
    exact ⟨keep_conn hpeer hlast, fun h => Or.inl (hquiet h)⟩

theorem drop_passive : c.drop.Passive c False := by
  refine ⟨no_conn, ?_⟩
  unfold Connection.drop Connection.closeFile
  cases c.fileFd <;> simp [Effect.Transfers]

theorem moveBuffer_passive : c.moveBuffer.Passive c False :=
  ⟨keep_conn rfl rfl, by simp [Connection.moveBuffer]⟩

namespace Server

section
variable {σ : Type} (dispatch : Request → σ → Except Exn Response × σ) (connectionTimeout : ℤ)

/-- No byte moved on a connection in the last `connectionTimeout` seconds before it was swept. -/
def IdleSwept (log : List Event) : Prop :=
  ∀ pre (time peer : ℕ) post, log = pre ++ .swept time peer :: post →
    ∀ (t : ℕ) e, Event.effect t peer e ∈ pre → e.Transfers →
      connectionTimeout * second < (time : ℤ) - t

/-- Bytes are written less than a second after `lastActive`. -/
def Prompt (s : Server σ) : Label → Prop
  | .writable fd outs => ∀ c ∈ s.connections.lookup fd, 0 < granted outs →
      s.now < c.lastActive + second
  | .flush io => ∀ w ∈ s.writes.head?, ∀ c ∈ s.connections.lookup w.fd,
      0 < granted io.outs ∨ 0 < granted io.fileOuts → s.now < c.lastActive + second
  | _ => True

instance (s : Server σ) : (l : Label) → Decidable (s.Prompt l)
  | .writable fd outs => inferInstanceAs (Decidable (∀ c ∈ s.connections.lookup fd,
      0 < granted outs → s.now < c.lastActive + second))
  | .flush io => inferInstanceAs (Decidable (∀ w ∈ s.writes.head?, ∀ c ∈ s.connections.lookup w.fd,
      0 < granted io.outs ∨ 0 < granted io.fileOuts → s.now < c.lastActive + second))
  | .accept _ | .readable .. | .hangup _ | .timer | .wakeup | .take _ | .finish _ | .tick _
  | .stop => instDecidableTrue

/-- Between two steps: the bytes of a connection have moved less than a second after its
    `lastActive`. -/
structure Timed (connections : AList fun _ : Fd => Connection) (now accepted : ℕ) (log : List Event) :
    Prop where
  le : ∀ fd c, connections.lookup fd = some c → c.lastActive ≤ now
  recent : ∀ fd c, connections.lookup fd = some c → ∀ t e, Event.effect t c.peer e ∈ log →
    e.Transfers → t < c.lastActive + second
  known : ∀ t p e, Event.effect t p e ∈ log → p < accepted

end

section
variable {σ : Type} {dispatch : Request → σ → Except Exn Response × σ} {connectionTimeout : ℤ}
  {s : Server σ} {fd : Fd}

/-- The state of a run whose writes are prompt. -/
structure Prompted (connectionTimeout : ℤ) (s : Server σ) : Prop where
  timed : Timed s.connections s.now s.accepted s.log
  swept : IdleSwept connectionTimeout s.log

theorem IdleSwept.append {log es : List Event} (h : IdleSwept connectionTimeout log)
    (hes : ∀ time peer, .swept time peer ∉ es) : IdleSwept connectionTimeout (log ++ es) := by
  intro pre time peer post hsplit
  obtain ⟨mid, hlog, -⟩ := Run.split_append (hes time peer) hsplit
  exact h pre time peer mid hlog

/-- A handler on the connection at `fd` that keeps its bytes recent. -/
theorem Timed.act (ho : s.Owns) (h : Timed s.connections s.now s.accepted s.log)
    (hc : s.connections.lookup fd = some c) {o : Outcome}
    (hconn : ∀ c', o.conn = some c' → c'.peer = c.peer ∧ c.lastActive ≤ c'.lastActive ∧
      c'.lastActive ≤ s.now ∧ ((∃ e ∈ o.effects, e.Transfers) → s.now < c'.lastActive + second)) :
    Timed (s.act fd c.peer o).connections s.now s.accepted (s.act fd c.peer o).log := by
  constructor
  case le =>
    intro fd' c' hc'
    rcases Owned.place_cases ho hc hc' with ⟨-, hconn'⟩ | ⟨-, -, hc'⟩
    · exact (hconn c' hconn').2.2.1
    · exact h.le fd' c' hc'
  case recent =>
    intro fd' c' hc' t e he ht
    rcases List.mem_append.1 he with he | he <;>
      rcases Owned.place_cases ho hc hc' with ⟨-, hconn'⟩ | ⟨-, hne, hc'⟩
    · obtain ⟨hpeer, hle, -⟩ := hconn c' hconn'
      have := h.recent fd c hc t e (hpeer ▸ he) ht
      omega
    · exact h.recent fd' c' hc' t e he ht
    · obtain ⟨-, -, -, hmoves⟩ := hconn c' hconn'
      obtain ⟨e', he', heq⟩ := List.mem_map.1 he
      obtain ⟨rfl, -, rfl⟩ := Event.effect.inj heq
      exact hmoves ⟨e', he', ht⟩
    · obtain ⟨e', -, heq⟩ := List.mem_map.1 he
      exact absurd (Event.effect.inj heq).2.1.symm hne
  case known =>
    intro t p e he
    rcases List.mem_append.1 he with he | he
    · exact h.known t p e he
    · obtain ⟨e', -, heq⟩ := List.mem_map.1 he
      obtain ⟨-, rfl, -⟩ := Event.effect.inj heq
      exact ho.lt fd c.peer (Or.inl (ho.sock fd c hc))

theorem Timed.passive (ho : s.Owns) (h : Timed s.connections s.now s.accepted s.log)
    (hc : s.connections.lookup fd = some c) {o : Outcome} {moves : Prop} (hp : o.Passive c moves)
    (hprompt : moves → s.now < c.lastActive + second) :
    Timed (s.act fd c.peer o).connections s.now s.accepted (s.act fd c.peer o).log := by
  refine h.act ho hc ?_
  intro c' hconn
  obtain ⟨hpeer, hlast⟩ := hp.conn c' hconn
  exact ⟨hpeer, hlast.ge, hlast ▸ h.le fd c hc, fun hmoves => hlast ▸ hprompt (hp.quiet hmoves)⟩

/-- A connection that has expired has been idle. -/
theorem expired_idle (h : c.expired connectionTimeout s.now) (hle : c.lastActive ≤ s.now) {t : ℕ}
    (ht : t < c.lastActive + second) : connectionTimeout * second < (s.now : ℤ) - t := by
  simp only [Connection.expired, decide_eq_true_eq] at h
  unfold second at *
  omega

/-- Events that are not effects. -/
theorem Timed.note (h : Timed s.connections s.now s.accepted s.log) {es : List Event}
    (hes : ∀ t p e, Event.effect t p e ∉ es) :
    Timed s.connections s.now s.accepted (s.log ++ es) := by
  have hold : ∀ t p e, Event.effect t p e ∈ s.log ++ es → Event.effect t p e ∈ s.log :=
    fun t p e he => (List.mem_append.1 he).resolve_right (hes t p e)
  refine ⟨h.le, ?_, ?_⟩
  · intro fd c hc t e he
    exact h.recent fd c hc t e (hold _ _ _ he)
  · intro t p e he
    exact h.known t p e (hold _ _ _ he)

theorem Prompted.passive (h : s.Prompted connectionTimeout) (ho : s.Owns)
    (hc : s.connections.lookup fd = some c) {o : Outcome} {moves : Prop} (hp : o.Passive c moves)
    (hprompt : moves → s.now < c.lastActive + second) :
    (s.act fd c.peer o).Prompted connectionTimeout :=
  ⟨h.timed.passive ho hc hp hprompt, h.swept.append (by simp)⟩

theorem Prompted.accept (h : s.Prompted connectionTimeout) :
    (s.handleAccept fd).Prompted connectionTimeout := by
  have hentry : ∀ fd' c', (s.handleAccept fd).connections.lookup fd' = some c' →
      c'.peer = s.accepted ∧ c'.lastActive = s.now ∨ s.connections.lookup fd' = some c' := by
    intro fd' c' hc'
    rcases @place_cases s.connections fd fd'
      (some (.accept (s.connections.lookup fd) s.accepted s.now)) c' hc' with ⟨-, hconn⟩ | ⟨-, hc'⟩
    · obtain rfl := Option.some.inj hconn
      exact Or.inl ⟨rfl, rfl⟩
    · exact Or.inr hc'
  refine ⟨⟨?_, ?_, ?_⟩, h.swept⟩
  · intro fd' c' hc'
    rcases hentry fd' c' hc' with ⟨-, hlast⟩ | hc'
    · exact hlast.le
    · exact h.timed.le fd' c' hc'
  · -- no byte has moved yet on the new connection
    intro fd' c' hc' t e he ht
    rcases hentry fd' c' hc' with ⟨hpeer, -⟩ | hc'
    · exact absurd (hpeer ▸ h.timed.known t _ e he) (lt_irrefl _)
    · exact h.timed.recent fd' c' hc' t e he ht
  · intro t p e he
    exact (h.timed.known t p e he).trans (Nat.lt_succ_self _)

/-- `cleanupTimeouts` comes to a connection that has expired. -/
theorem Prompted.sweep (h : s.Prompted connectionTimeout)
    (hc : s.connections.lookup fd = some c) (he : c.expired connectionTimeout s.now) :
    { s with log := s.log ++ [Event.swept s.now c.peer] }.Prompted connectionTimeout := by
  refine ⟨h.timed.note (by simp), ?_⟩
  intro pre time peer post hsplit
  rcases post.eq_nil_or_concat with rfl | ⟨post, e, rfl⟩
  · obtain ⟨rfl, hlast⟩ := List.append_inj' hsplit rfl
    obtain ⟨rfl, rfl⟩ := Event.swept.inj (List.cons.inj hlast).1
    exact fun t e hmem ht => expired_idle he (h.timed.le fd c hc) (h.timed.recent fd c hc t e hmem ht)
  · rw [List.concat_eq_append, ← List.cons_append, ← List.append_assoc] at hsplit
    exact h.swept pre time peer post (List.append_inj' hsplit rfl).1

theorem Prompted.perform (h : s.Prompted connectionTimeout) (ho : s.Owns) {l : Label}
    (hp : s.Prompt l) : (s.perform dispatch connectionTimeout l).Prompted connectionTimeout := by
  cases l with
  | accept fd => exact h.accept
  | readable fd reads =>
    refine handleRead_inv h ⟨h.timed, h.swept⟩ ?_
    intro c o detach hc hr
    have hle := h.timed.le fd c hc
    have ht : (s.act fd c.peer o).Prompted connectionTimeout := by
      refine ⟨h.timed.act ho hc ?_, h.swept.append (by simp)⟩
      intro c' hconn
      rcases Connection.handleRead_cases hr with ⟨-, rfl, -⟩ | ⟨rfl, -⟩ | ⟨-, rfl, -⟩
      · cases hconn
      · obtain rfl := Option.some.inj hconn
        exact ⟨rfl, le_rfl, hle, by simp⟩
      · obtain rfl := Option.some.inj hconn
        exact ⟨rfl, hle, le_rfl, fun _ => Nat.lt_add_of_pos_right (by decide)⟩
    exact ⟨ht.timed, ht.swept⟩
  | writable fd outs =>
    exact on_inv h fun c hc => h.passive ho hc (handleWrite_passive outs) (hp c hc)
  | hangup fd => exact on_inv h fun c hc => h.passive ho hc drop_passive False.elim
  | timer =>
    refine (cleanupTimeouts_inv (I := fun s : Server σ => s.Owns ∧ s.Prompted connectionTimeout) ⟨ho, h⟩ ?_).2
    rintro s' fd c ⟨ho', h'⟩ hc - he -
    exact ⟨Owns.act (s := { s' with log := _ }) ho' hc net_drop,
      (h'.sweep hc he).passive ho' hc drop_passive False.elim⟩
  | wakeup => exact ⟨h.timed, h.swept⟩
  | flush io =>
    refine processPending_inv h (fun _ _ _ _ => ⟨h.timed, h.swept⟩) ?_
    intro w writes c hw hc
    refine Prompted.passive (s := { s with writes }) ⟨h.timed, h.swept⟩ ho hc
      (deliver_passive w.tag w.response io) ?_
    exact hp w (by rw [hw]; rfl) c hc
  | take i =>
    refine takeBuffer_inv h (fun _ => ⟨h.timed, h.swept⟩) ?_
    intro tasks fd c hc
    have ht := Prompted.passive (s := { s with tasks }) ⟨h.timed, h.swept⟩ ho hc moveBuffer_passive
      False.elim
    exact ⟨ht.timed, ht.swept⟩
  | finish i =>
    refine finishTask_inv h fun t app _ => ⟨⟨h.timed, h.swept⟩, fun response => ?_⟩
    exact ⟨h.timed.note (by simp), h.swept.append (by simp)⟩
  | tick dt =>
    refine ⟨⟨?_, h.timed.recent, h.timed.known⟩, h.swept⟩
    intro fd c hc
    exact (h.timed.le fd c hc).trans (Nat.le_add_right _ _)
  | stop =>
    refine (stop_inv (I := fun s : Server σ => s.Owns ∧ s.Prompted connectionTimeout)
      ⟨ho, ⟨h.timed, h.swept⟩⟩ ?_).2
    rintro s' fd c ⟨ho', h'⟩ hc -
    exact ⟨Owns.act ho' hc net_drop, h'.passive ho' hc drop_passive False.elim⟩

/-- **Runs whose writes are prompt** sweep idle connections only. -/
theorem prompt_idle (app : σ) (run : List Label)
    (h : Run.Each (Server.step dispatch connectionTimeout)
      (fun s l => s.terminated = false ∧ Enabled s l → s.Prompt l) (start app) run) :
    IdleSwept connectionTimeout
      (Run.exec (Server.step dispatch connectionTimeout) (start app) run).log := by
  have hstart : (start app).Prompted connectionTimeout := by
    refine ⟨⟨?_, ?_, ?_⟩, ?_⟩
    · simp [start]
    · simp [start]
    · simp [start]
    · intro pre time peer post hsplit
      simp [start] at hsplit
  exact (run_induction (I := fun s => s.Prompted connectionTimeout)
    (fun _ _ ho hs _ hp => hs.perform ho hp) hstart h).swept

end

/-! ## A slow download -/

/-- A router that always streams a file of four bytes. -/
def song (_ : Request) (app : Unit) : Except Exn Response × Unit :=
  (.ok (.streamFile { fileSize := 4, rangeEnd := 3 }), app)

/-- A download starts; after `dt` one more byte is written, and the timer fires after `dt'`. -/
def slowDownload (dt dt' : ℕ) : List Label :=
  [.accept 5, .readable 5 [.bytes ask], .take 0, .finish 0, .wakeup,
    .flush ⟨[.wrote 65536], some 6, [.wrote 2]⟩, .tick dt, .writable 5 [.wrote 1], .tick dt', .timer]

/-- The byte is written at once, and the timer closes the connection after the timeout. -/
theorem slowDownload_idle :
    IdleSwept 60 (Run.exec (Server.step song 60) (start ()) (slowDownload 5 (61 * second))).log :=
  prompt_idle () _ (by decide +kernel)

/-- The byte is written when the timer is due: the connection is closed although a byte has just
    been written. -/
theorem slowDownload_killed :
    ¬ IdleSwept 60 (Run.exec (Server.step song 60) (start ()) (slowDownload (61 * second) 0)).log := by
  intro h
  have hlast := h ((Run.exec (Server.step song 60) (start ()) (slowDownload (61 * second) 0)).log.take 6)
    (61 * second) 0 [.effect (61 * second) 0 (.closedFile 6), .effect (61 * second) 0 .closed]
    (by decide +kernel) (61 * second) (.sentFile ⟨0, 0⟩ 6 1) (by decide +kernel) Nat.one_ne_zero
  exact absurd hlast (by decide)

end Server

end NarMusic
