/-
  What the server has opened is released.

  * `Released`: every file opened for a stream is held by a connection or closed,
    and the path to unlink of every response is held, waiting or unlinked.
  * Several ways out of a stream forget it; `Spares` excludes them, and the runs
    without them release everything (`spared_released`).
-/
import NarMusic.Server.Descriptors

namespace NarMusic

open Cxx

namespace Server

section
variable {σ : Type} (dispatch : Request → σ → Except Exn Response × σ) (connectionTimeout : ℤ)

/-- Every open file is the `fileFd` of a connection. -/
def FilesHeld (conns : AList fun _ : Fd => Connection) (desc : Fd → Option Desc) : Prop :=
  ∀ f p, desc f = some (.file p) → ∃ fd c, conns.lookup fd = some c ∧ c.fileFd = some f

/-- The path of a response is held by the connection that streams it, waits with the response, or
    has been unlinked. -/
def Accounted (s : Server σ) (tag : Tag) (resp : Response) : Prop :=
  (∃ fd c, s.connections.lookup fd = some c ∧ c.Streaming ∧ c.streamTag = tag ∧
      c.cleanupPath = resp.cleanupPath) ∨
    (∃ w ∈ s.pendingWrites ++ s.writes, w.tag = tag ∧ w.response = resp) ∨
    ∃ time peer, Event.effect time peer (.unlinked tag resp.cleanupPath) ∈ s.log

structure Released (s : Server σ) : Prop where
  files : FilesHeld s.connections s.desc
  paths : ∀ tag taskData resp, Event.enqueued tag taskData resp ∈ s.log → resp.cleanupPath ≠ [] →
    s.Accounted tag resp

/-- No stream is in progress where the peer closes or another file response comes; what is closed
    otherwise has no path to unlink; and a response with such a path finds its connection and its
    file. -/
def Spares (s : Server σ) : Label → Prop
  | .readable fd reads => ∀ c ∈ s.connections.lookup fd, c.Ends reads → c.fileFd = none
  | .hangup fd => ∀ c ∈ s.connections.lookup fd, c.Streaming → c.cleanupPath = []
  | .timer => ∀ e ∈ s.connections.entries, e.2.expired connectionTimeout s.now → e.2.Streaming →
      e.2.cleanupPath = []
  | .stop => ∀ e ∈ s.connections.entries, e.2.Streaming → e.2.cleanupPath = []
  | .flush io => ∀ w ∈ s.writes.head?,
      (s.connections.lookup w.fd = none → w.response.cleanupPath = []) ∧
      ∀ c ∈ s.connections.lookup w.fd, w.response.isFileStream = true →
        c.fileFd = none ∧ (io.opened = none → w.response.cleanupPath = [])
  | _ => True

instance (s : Server σ) : (l : Label) → Decidable (s.Spares connectionTimeout l)
  | .readable fd reads => inferInstanceAs (Decidable (∀ c ∈ s.connections.lookup fd,
      c.Ends reads → c.fileFd = none))
  | .hangup fd => inferInstanceAs (Decidable (∀ c ∈ s.connections.lookup fd,
      c.Streaming → c.cleanupPath = []))
  | .timer => inferInstanceAs (Decidable (∀ e ∈ s.connections.entries,
      e.2.expired connectionTimeout s.now → e.2.Streaming → e.2.cleanupPath = []))
  | .stop => inferInstanceAs (Decidable (∀ e ∈ s.connections.entries,
      e.2.Streaming → e.2.cleanupPath = []))
  | .flush io => inferInstanceAs (Decidable (∀ w ∈ s.writes.head?,
      (s.connections.lookup w.fd = none → w.response.cleanupPath = []) ∧
      ∀ c ∈ s.connections.lookup w.fd, w.response.isFileStream = true →
        c.fileFd = none ∧ (io.opened = none → w.response.cleanupPath = [])))
  | .accept _ | .writable .. | .wakeup | .take _ | .finish _ | .tick _ => instDecidableTrue

end

end Server

/-! ## Handlers -/

/-- The path is still held, or has been unlinked. -/
def Outcome.Keeps (o : Outcome) (tag : Tag) (path : Str) : Prop :=
  (∃ c, o.conn = some c ∧ c.Streaming ∧ c.streamTag = tag ∧ c.cleanupPath = path) ∨
    .unlinked tag path ∈ o.effects

variable {c : Connection}

theorem unlinkCleanup_mem (hp : c.cleanupPath ≠ []) :
    .unlinked c.streamTag c.cleanupPath ∈ c.unlinkCleanup := by
  simp [Connection.unlinkCleanup, hp]

theorem keeps_sendFileChunked (hs : c.Streaming) (hp : c.cleanupPath ≠ []) (outs : List IoResult) :
    (c.sendFileChunked outs).Keeps c.streamTag c.cleanupPath := by
  have hu := unlinkCleanup_mem hp
  rcases c.sendFileChunked_cases outs with ⟨hf, -⟩ | ⟨fileFd, -, ⟨-, h⟩ | ⟨-, h⟩ | ⟨-, h⟩⟩
  · exact absurd hf hs.2
  · rw [h]
    exact Or.inl ⟨_, rfl, hs, rfl, rfl⟩
  · rw [h]
    exact Or.inr (by simp [hu])
  · rw [h]
    exact Or.inr (by simp [hu])

theorem keeps_handleWrite (hs : c.Streaming) (hp : c.cleanupPath ≠ []) (outs : List IoResult) :
    (c.handleWrite outs).Keeps c.streamTag c.cleanupPath := by
  have hw : c.handleWrite outs = c.sendFileChunked outs := if_pos hs
  rw [hw]
  exact keeps_sendFileChunked hs hp outs

theorem keeps_handleRead (hs : c.Streaming) {now : ℕ} {reads : List ReadResult} {o : Outcome}
    {detach : Bool} (hr : c.handleRead now reads = .ok (o, detach)) (he : ¬ c.Ends reads) :
    o.Keeps c.streamTag c.cleanupPath := by
  rcases Connection.handleRead_cases hr with ⟨hend, -⟩ | ⟨rfl, -⟩ | ⟨-, rfl, -⟩
  · exact absurd hend he
  · exact Or.inl ⟨_, rfl, hs, rfl, rfl⟩
  · exact Or.inl ⟨_, rfl, hs, rfl, rfl⟩

theorem sendResponse_stream (tag : Tag) (text : Str) (outs : List IoResult) :
    (c.sendResponse tag text outs).1.streamTag = c.streamTag ∧
      (c.sendResponse tag text outs).1.cleanupPath = c.cleanupPath := by
  unfold Connection.sendResponse
  split_ifs
  · simp only
    split_ifs <;> exact ⟨rfl, rfl⟩
  · exact ⟨rfl, rfl⟩

theorem keeps_deliver_text (hs : c.Streaming) (tag : Tag) {resp : Response}
    (hresp : ¬ resp.isFileStream) (io : Connection.FlushIo) :
    (c.deliver tag resp io).Keeps c.streamTag c.cleanupPath := by
  obtain ⟨htag, hpath⟩ := sendResponse_stream (c := c) tag resp.text io.outs
  obtain ⟨-, -, hf, hi⟩ := sendResponse_inert (c := c) tag resp.text io.outs
  rw [c.deliver_text tag io hresp]
  exact Or.inl ⟨_, rfl, ⟨hi.trans hs.1, hf ▸ hs.2⟩, htag, hpath⟩

/-- The path of a file response that is opened. -/
theorem keeps_deliver_file (tag : Tag) {resp : Response} (hresp : resp.isFileStream = true)
    (hp : resp.cleanupPath ≠ []) {io : Connection.FlushIo} (ho : io.opened ≠ none) :
    (c.deliver tag resp io).Keeps tag resp.cleanupPath := by
  obtain ⟨fileFd, hopen⟩ := Option.ne_none_iff_exists'.1 ho
  rw [c.deliver_opened tag hresp hopen]
  have hpath : resp.cleanupPath = resp.fileStreamInfo.cleanupPath := if_pos hresp
  rw [hpath] at hp ⊢
  rcases keeps_sendFileChunked (c := (c.sendResponse tag resp.text io.outs).1.startStream tag
    resp.fileStreamInfo fileFd) ⟨rfl, by simp [Connection.startStream]⟩ hp io.fileOuts with h | h
  · exact Or.inl h
  · exact Or.inr (List.mem_append_right _ (List.mem_cons_of_mem _ (List.mem_append_right _ h)))

namespace Server

section
variable {σ : Type} {dispatch : Request → σ → Except Exn Response × σ} {connectionTimeout : ℤ}
  {s : Server σ} {fd : Fd}

/-! ## Files -/

theorem FilesHeld.act {conns : AList fun _ : Fd => Connection} {desc desc' : Fd → Option Desc}
    {conn : Option Connection} (h : FilesHeld conns desc) (hc : conns.lookup fd = some c)
    (hn : Net c fd desc False conn desc') : FilesHeld (place conns fd conn) desc' := by
  -- Another file than that of `c` is held as before.
  have hother : ∀ f p, desc f = some (.file p) → c.fileFd ≠ some f →
      ∃ fd' c', (place conns fd conn).lookup fd' = some c' ∧ c'.fileFd = some f := by
    intro f p hf hne
    obtain ⟨fd', c', hc', hf'⟩ := h f p hf
    refine ⟨fd', c', ?_, hf'⟩
    rw [lookup_place, if_neg, hc']
    rintro rfl
    obtain rfl := Option.some.inj (hc.symm.trans hc')
    exact hne hf'
  have hself : (place conns fd conn).lookup fd = conn := by rw [lookup_place, if_pos rfl]
  intro f p hf
  cases hn with
  | @kept c' _ hfile _ =>
    by_cases hcf : c.fileFd = some f
    · exact ⟨fd, c', hself, hfile.trans hcf⟩
    · exact hother f p hf hcf
  | done _ hcf _ =>
    obtain ⟨hne, hf⟩ := update_none_eq_some.1 hf
    exact hother f p hf fun h' => hne (Option.some.inj (h'.symm.trans hcf))
  | @opened c' g _ hcf _ hg _ =>
    rcases update_some_eq_some.1 hf with ⟨rfl, -⟩ | ⟨-, hf⟩
    · exact ⟨fd, c', hself, hg⟩
    · exact hother f p hf (by simp [hcf.resolve_right id])
  | through _ hcf _ => exact hother f p hf (by simp [hcf.resolve_right id])
  | gone hcf => exact hother f p (update_none_eq_some.1 hf).2 (by simp [hcf.resolve_right id])
  | closed hcf =>
    obtain ⟨hne, hf⟩ := update_none_eq_some.1 (update_none_eq_some.1 hf).2
    exact hother f p hf fun h' => hne (Option.some.inj (h'.symm.trans hcf))

/-! ## Paths -/

theorem keeps_accounted {tag : Tag} {resp : Response} {o : Outcome} (peer : ℕ)
    (h : o.Keeps tag resp.cleanupPath) : (s.act fd peer o).Accounted tag resp := by
  rcases h with ⟨c, hc, hs, htag, hpath⟩ | h
  · refine Or.inl ⟨fd, c, ?_, hs, htag, hpath⟩
    exact (lookup_place _ _ _ _).trans ((if_pos rfl).trans hc)
  · exact Or.inr (Or.inr ⟨s.now, peer, List.mem_append_right _ (List.mem_map_of_mem h)⟩)

theorem Accounted.act {tag : Tag} {resp : Response} (h : s.Accounted tag resp)
    (hc : s.connections.lookup fd = some c) {o : Outcome}
    (hk : c.Streaming → c.streamTag = tag → c.cleanupPath = resp.cleanupPath →
      o.Keeps tag resp.cleanupPath) : (s.act fd c.peer o).Accounted tag resp := by
  rcases h with ⟨fd', c', hc', hs, htag, hpath⟩ | hwait | ⟨time, peer, hlog⟩
  · by_cases hfd : fd' = fd
    · subst hfd
      obtain rfl := Option.some.inj (hc.symm.trans hc')
      exact keeps_accounted _ (hk hs htag hpath)
    · refine Or.inl ⟨fd', c', ?_, hs, htag, hpath⟩
      exact (lookup_place _ _ _ _).trans ((if_neg hfd).trans hc')
  · exact Or.inr (Or.inl hwait)
  · exact Or.inr (Or.inr ⟨time, peer, List.mem_append_left _ hlog⟩)

/-- The responses enqueued so far. -/
def Sources (s : Server σ) (tag : Tag) (resp : Response) : Prop :=
  ∃ taskData, Event.enqueued tag taskData resp ∈ s.log

theorem sources_act {tag : Tag} {resp : Response} {peer : ℕ} {o : Outcome}
    (h : (s.act fd peer o).Sources tag resp) : s.Sources tag resp := by
  obtain ⟨taskData, h⟩ := h
  rcases List.mem_append.1 h with h | h
  · exact ⟨taskData, h⟩
  · simp at h

/-- A handler that releases the file and the path of its connection. -/
theorem Released.act (h : s.Released) (hc : s.connections.lookup fd = some c) {o : Outcome}
    (hn : o.Net c fd s.desc False)
    (hk : c.Streaming → c.cleanupPath ≠ [] → o.Keeps c.streamTag c.cleanupPath) :
    (s.act fd c.peer o).Released := by
  refine ⟨h.files.act hc hn, ?_⟩
  intro tag taskData resp hmem hp
  obtain ⟨taskData, hmem⟩ := sources_act ⟨taskData, hmem⟩
  refine (h.paths tag taskData resp hmem hp).act hc ?_
  intro hs htag hpath
  rw [← htag, ← hpath]
  exact hk hs (hpath ▸ hp)

theorem Released.accept (h : s.Released) (ho : s.Owns) (hfd : s.desc fd = none) :
    (s.handleAccept fd).Released := by
  have hne : ∀ fd' c, s.connections.lookup fd' = some c → fd' ≠ fd := by
    rintro fd' c hc rfl
    rw [ho.sock fd' c hc] at hfd
    cases hfd
  have hold : ∀ fd' c, s.connections.lookup fd' = some c →
      (s.handleAccept fd).connections.lookup fd' = some c := fun fd' c hc =>
    (lookup_place _ _ (some _) _).trans ((if_neg (hne fd' c hc)).trans hc)
  constructor
  · intro f p hf
    rcases update_some_eq_some.1 hf with ⟨-, hf⟩ | ⟨-, hf⟩
    · cases hf
    · obtain ⟨fd', c, hc, hcf⟩ := h.files f p hf
      exact ⟨fd', c, hold fd' c hc, hcf⟩
  · intro tag taskData resp hmem hp
    rcases h.paths tag taskData resp hmem hp with ⟨fd', c, hc, hs⟩ | hwait
    · exact Or.inl ⟨fd', c, hold fd' c hc, hs⟩
    · exact Or.inr hwait

/-- A response that leaves the queue. -/
theorem Accounted.pop {w : Pending} {writes : List Pending} (hw : s.writes = w :: writes) {tag : Tag}
    {resp : Response} (h : s.Accounted tag resp) :
    { s with writes }.Accounted tag resp ∨ w.tag = tag ∧ w.response = resp := by
  rcases h with hheld | ⟨w', hmem, htag, hresp⟩ | hlog
  · exact Or.inl (Or.inl hheld)
  · rw [hw, List.mem_append, List.mem_cons] at hmem
    rcases hmem with hmem | rfl | hmem
    · exact Or.inl (Or.inr (Or.inl ⟨w', List.mem_append_left _ hmem, htag, hresp⟩))
    · exact Or.inr ⟨htag, hresp⟩
    · exact Or.inl (Or.inr (Or.inl ⟨w', List.mem_append_right _ hmem, htag, hresp⟩))
  · exact Or.inl (Or.inr (Or.inr hlog))

/-- `processPendingWrites` comes to a response. -/
theorem Released.flush (h : s.Released) {io : Connection.FlushIo}
    (ho : ∀ fileFd ∈ io.opened, s.desc fileFd = none) (hs : s.Spares connectionTimeout (.flush io)) :
    (s.processPending io).Released := by
  refine processPending_inv h ?_ ?_
  · -- the connection is gone: the response has no path
    intro w writes hw hc
    obtain ⟨hgone, -⟩ := hs w (by rw [hw]; rfl)
    refine ⟨h.files, ?_⟩
    intro tag taskData resp hmem hp
    rcases (h.paths tag taskData resp hmem hp).pop hw with hacc | ⟨-, rfl⟩
    · exact hacc
    · exact absurd (hgone hc) hp
  · intro w writes c hw hc
    obtain ⟨-, hfound⟩ := hs w (by rw [hw]; rfl)
    have hfound := hfound c hc
    refine ⟨h.files.act hc (net_deliver w.tag (fun hf => Or.inl (hfound hf).1) ho), ?_⟩
    intro tag taskData resp hmem hp
    obtain ⟨taskData, hmem⟩ := sources_act ⟨taskData, hmem⟩
    rcases (h.paths tag taskData resp hmem hp).pop hw with hacc | ⟨rfl, rfl⟩
    · refine hacc.act hc ?_
      intro hstream htag hpath
      rw [← htag, ← hpath]
      exact keeps_deliver_text hstream w.tag (fun hf => hstream.2 (hfound hf).1) io
    · have hfile : w.response.isFileStream = true := by
        by_contra hf
        exact hp (if_neg hf)
      exact keeps_accounted _ (keeps_deliver_file w.tag hfile hp fun hn => hp ((hfound hfile).2 hn))

theorem Released.enqueue (h : s.Released) (t : Taken) (response : Response) :
    (s.enqueueResponse t response).Released := by
  refine ⟨h.files, ?_⟩
  intro tag taskData resp hmem hp
  rcases List.mem_append.1 hmem with hmem | hmem
  · rcases h.paths tag taskData resp hmem hp with hheld | ⟨w, hw, hwait⟩ | ⟨time, peer, hlog⟩
    · exact Or.inl hheld
    · refine Or.inr (Or.inl ⟨w, ?_, hwait⟩)
      rcases List.mem_append.1 hw with hw | hw
      · exact List.mem_append_left _ (List.mem_append_left _ hw)
      · exact List.mem_append_right _ hw
    · exact Or.inr (Or.inr ⟨time, peer, List.mem_append_left _ hlog⟩)
  · obtain ⟨rfl, rfl, rfl⟩ := Event.enqueued.inj (List.mem_singleton.1 hmem)
    refine Or.inr (Or.inl ⟨⟨t.fd, ⟨s.serial, t.origin⟩, resp⟩, ?_, rfl, rfl⟩)
    exact List.mem_append_left _ (List.mem_append_right _ (List.mem_singleton_self _))

/-- `cleanupTimeouts` notes that it closes a connection. -/
theorem Released.note (h : s.Released) (time peer : ℕ) :
    { s with log := s.log ++ [Event.swept time peer] }.Released := by
  refine ⟨h.files, ?_⟩
  intro tag taskData resp hmem hp
  have hmem : Event.enqueued tag taskData resp ∈ s.log := by simpa using hmem
  rcases h.paths tag taskData resp hmem hp with hheld | hwait | ⟨time, peer, hlog⟩
  · exact Or.inl hheld
  · exact Or.inr (Or.inl hwait)
  · exact Or.inr (Or.inr ⟨time, peer, List.mem_append_left _ hlog⟩)

theorem Released.perform (h : s.Released) (ho : s.Owns) {l : Label} (hl : Enabled s l)
    (hs : s.Spares connectionTimeout l) : (s.perform dispatch connectionTimeout l).Released := by
  cases l with
  | accept fd => exact h.accept ho hl.2
  | readable fd reads =>
    refine handleRead_inv h ⟨h.files, h.paths⟩ ?_
    intro c o detach hc hr
    have hr' := h.act hc (net_handleRead hr fun he => Or.inl (hs c hc he)) fun hstream _ =>
      keeps_handleRead hstream hr fun he => hstream.2 (hs c hc he)
    exact ⟨hr'.files, hr'.paths⟩
  | writable fd outs =>
    exact on_inv h fun c hc => h.act hc (net_handleWrite outs (ho.stream fd c hc))
      fun hs hp => keeps_handleWrite hs hp outs
  | hangup fd =>
    exact on_inv h fun c hc => h.act hc net_drop fun hstream hp => absurd (hs c hc hstream) hp
  | timer =>
    refine cleanupTimeouts_inv h ?_
    intro s' fd c hs' hc' hc he hnow
    refine (hs'.note s'.now c.peer).act hc' net_drop ?_
    intro hstream hp
    exact absurd (hs ⟨fd, c⟩ (AList.mem_lookup_iff.1 hc) (hnow ▸ he) hstream) hp
  | wakeup =>
    refine ⟨h.files, ?_⟩
    intro tag taskData resp hmem hp
    have hacc := h.paths tag taskData resp hmem hp
    simp only [Accounted, hl.2, List.append_nil] at hacc
    exact hacc
  | flush io => exact h.flush hl hs
  | take i =>
    refine takeBuffer_inv h (fun _ => ⟨h.files, h.paths⟩) ?_
    intro tasks fd c hc
    have ht : ({ s with tasks }.act fd c.peer c.moveBuffer).Released :=
      Released.act (s := { s with tasks }) ⟨h.files, h.paths⟩ hc net_moveBuffer fun hstream _ =>
        Or.inl ⟨_, rfl, hstream, rfl, rfl⟩
    exact ⟨ht.files, ht.paths⟩
  | finish i =>
    refine finishTask_inv h ?_
    intro t app _
    have ht : { s with taken := s.taken.eraseIdx i, app }.Released := ⟨h.files, h.paths⟩
    exact ⟨ht, fun response => ht.enqueue t response⟩
  | tick dt => exact ⟨h.files, h.paths⟩
  | stop =>
    refine stop_inv ⟨h.files, h.paths⟩ ?_
    intro s' fd c hs' hc' hc
    refine hs'.act hc' net_drop ?_
    intro hstream hp
    exact absurd (hs ⟨fd, c⟩ (AList.mem_lookup_iff.1 hc) hstream) hp

/-- **Runs that spare what they hold** release what they open. -/
theorem spared_released (app : σ) (run : List Label)
    (h : Run.Each (Server.step dispatch connectionTimeout)
      (fun s l => s.terminated = false ∧ Enabled s l → s.Spares connectionTimeout l) (start app) run) :
    (Run.exec (Server.step dispatch connectionTimeout) (start app) run).Released := by
  have hstart : (start app).Released := by
    constructor
    · intro f p hf
      cases hf
    · intro tag taskData resp hmem
      cases hmem
  exact run_induction (I := Released) (fun _ _ ho hr hl hs => hr.perform ho hl hs) hstart h

end

/-! ## A download that is cut off -/

/-- A router that always streams a temporary archive of four bytes. -/
def archive (_ : Request) (app : Unit) : Except Exn Response × Unit :=
  (.ok (.downloadFile { fileSize := 4, rangeEnd := 3, cleanupPath := lit "/tmp/a.zip" }
    (lit "a.zip")), app)

/-- A client asks, and the archive is opened; `sendfile` takes what `sizes` says. -/
def download (sizes : List IoResult) : List Label :=
  [.accept 5, .readable 5 [.bytes ask], .take 0, .finish 0, .wakeup,
    .flush ⟨[.wrote 65536], some 6, sizes⟩]

/-- The client closes after the last byte. -/
theorem download_released :
    (Run.exec (Server.step archive 60) (start ()) (download [.wrote 4] ++ [.readable 5 [.bytes []]])).Released :=
  spared_released () _ (by decide +kernel)

/-- The event unlinks a path. -/
def unlinks : Event → Bool
  | .effect _ _ (.unlinked ..) => true
  | _ => false

/-- The path of an enqueued response. -/
def enqueuedPath : Event → Str
  | .enqueued _ _ resp => resp.cleanupPath
  | _ => []

/-- With no connection left, nothing waiting and nothing unlinked, there was no path to unlink. -/
theorem Released.no_path {σ : Type} {s : Server σ} (h : s.Released)
    (hc : s.connections.entries.length = 0) (hw : (s.pendingWrites ++ s.writes).length = 0)
    (hlog : ∀ e ∈ s.log, unlinks e = false) : ∀ e ∈ s.log, enqueuedPath e = [] := by
  rintro (_ | _ | ⟨tag, taskData, resp⟩) hmem
  · rfl
  · rfl
  by_contra hp
  rcases h.paths tag taskData resp hmem hp with ⟨fd, c, hheld, -⟩ | ⟨w, hwait, -⟩ | ⟨time, peer, hu⟩
  · have hmem' := AList.mem_lookup_iff.1 hheld
    rw [List.length_eq_zero_iff.1 hc] at hmem'
    cases hmem'
  · rw [List.length_eq_zero_iff.1 hw] at hwait
    cases hwait
  · exact absurd (hlog _ hu) (by simp [unlinks])

/-- The client closes before the first byte: the file stays open.  It breaks off with an error: the
    archive stays. -/
theorem download_leaked :
    ¬ (Run.exec (Server.step archive 60) (start ()) (download [] ++ [.readable 5 [.bytes []]])).Released ∧
    ¬ (Run.exec (Server.step archive 60) (start ()) (download [] ++ [.hangup 5])).Released := by
  constructor
  · intro h
    obtain ⟨fd, c, hc, -⟩ := h.files 6 0 (by decide +kernel)
    have hnone : (Run.exec (Server.step archive 60) (start ())
        (download [] ++ [.readable 5 [.bytes []]])).connections.entries.length = 0 := by decide +kernel
    have hmem := AList.mem_lookup_iff.1 hc
    rw [List.length_eq_zero_iff.1 hnone] at hmem
    cases hmem
  · intro h
    have hall := h.no_path (by decide +kernel) (by decide +kernel) (by decide +kernel)
    exact absurd hall (by decide +kernel)

end Server

end NarMusic
