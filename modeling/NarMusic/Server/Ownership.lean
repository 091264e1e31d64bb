/-
  A response goes to the client that asked.

  * `received`: the bytes read from an accepted connection; `Known`: a tag belongs
    to a response that was made from bytes of that connection.
  * `Private`: what is sent on a connection is known to it.  The queues name a
    client by its descriptor only, so this holds in the runs that hand out no
    descriptor with work pending on it (`fresh_private`).
-/
import NarMusic.Server.Descriptors

namespace NarMusic

open Cxx

/-- The bytes an event reads from the connection of `peer`. -/
def Event.reads (peer : ℕ) : Event → Str
  | .effect _ p (.received data) => if p = peer then data else []
  | _ => []

/-- The bytes read from the connection of `peer`. -/
def received (log : List Event) (peer : ℕ) : Str := log.flatMap (Event.reads peer)

@[simp] theorem received_append (log es : List Event) (peer : ℕ) :
    received (log ++ es) peer = received log peer ++ received es peer := List.flatMap_append

/-- A response for `peer`, made from bytes of that connection. -/
def Known (log : List Event) (peer : ℕ) (tag : Tag) : Prop :=
  tag.origin = peer ∧ ∃ taskData resp, Event.enqueued tag taskData resp ∈ log ∧
    taskData <:+: received log peer

theorem Known.append {log : List Event} {peer : ℕ} {tag : Tag} (h : Known log peer tag)
    (es : List Event) : Known (log ++ es) peer tag := by
  obtain ⟨horigin, taskData, resp, hmem, hinfix⟩ := h
  refine ⟨horigin, taskData, resp, List.mem_append_left _ hmem, ?_⟩
  rw [received_append]
  exact hinfix.trans (List.prefix_append _ _).isInfix

/-- The effect sends bytes of responses whose tags satisfy `P`, and reads nothing. -/
def Effect.Carries (P : Tag → Prop) : Effect → Prop
  | .received _ => False
  | .sent tag data => data ≠ [] → P tag
  | .sentFile tag _ _ => P tag
  | _ => True

theorem Effect.Carries.imp {P Q : Tag → Prop} (hPQ : ∀ tag, P tag → Q tag) {e : Effect}
    (h : e.Carries P) : e.Carries Q := by
  cases e with
  | received data => exact h.elim
  | sent tag data => exact fun hne => hPQ tag (h hne)
  | sentFile tag fileFd n => exact hPQ tag h
  | _ => trivial

namespace Connection

/-- What the connection has left to send is of responses whose tags satisfy `P`. -/
def Holds (c : Connection) (P : Tag → Prop) : Prop :=
  (c.writeBuffer.drop c.written ≠ [] → P c.writeTag) ∧ (c.fileFd ≠ none → P c.streamTag)

theorem Holds.imp {c : Connection} {P Q : Tag → Prop} (hPQ : ∀ tag, P tag → Q tag) (h : c.Holds P) :
    c.Holds Q :=
  ⟨fun hne => hPQ _ (h.1 hne), fun hf => hPQ _ (h.2 hf)⟩

end Connection

/-- A handler that reads nothing, and sends only what is of responses whose tags satisfy `P`. -/
structure Outcome.Carries (o : Outcome) (c : Connection) (P : Tag → Prop) : Prop where
  effects : ∀ e ∈ o.effects, e.Carries P
  conn : ∀ c', o.conn = some c' →
    c'.peer = c.peer ∧ c'.readBuffer <:+ c.readBuffer ∧ c'.Holds P

variable {c : Connection} {P : Tag → Prop}

/-! ## Handlers -/

theorem sendFileChunked_carries (h : c.Holds P) (outs : List IoResult) :
    (c.sendFileChunked outs).Carries c P := by
  have hunlink : ∀ e ∈ c.unlinkCleanup, e.Carries P := by
    unfold Connection.unlinkCleanup
    split_ifs <;> simp [Effect.Carries]
  rcases c.sendFileChunked_cases outs with ⟨hf, ho⟩ | ⟨fileFd, hf, hcase⟩
  · rw [ho]
    refine ⟨by simp, ?_⟩
    rintro c' ⟨⟩
    exact ⟨rfl, List.suffix_rfl, h⟩
  have hchunks : ∀ e ∈ c.chunks fileFd outs, e.Carries P := by
    have htag := h.2 (by simp [hf])
    simpa [Connection.chunks, Effect.Carries] using fun _ _ => htag
  rcases hcase with ⟨-, ho⟩ | ⟨-, ho⟩ | ⟨-, ho⟩ <;> rw [ho]
  · refine ⟨hchunks, ?_⟩
    rintro c' ⟨⟩
    exact ⟨rfl, List.suffix_rfl, h⟩
  · refine ⟨?_, by rintro c' ⟨⟩⟩
    intro e he
    simp only [List.mem_append, List.mem_cons, List.not_mem_nil, or_false] at he
    rcases he with he | rfl | he | rfl
    · exact hchunks e he
    · trivial
    · exact hunlink e he
    · trivial
  · constructor
    · intro e he
      simp only [List.mem_append, List.mem_cons] at he
      rcases he with he | rfl | he
      · exact hchunks e he
      · trivial
      · exact hunlink e he
    · rintro c' ⟨⟩
      exact ⟨rfl, List.suffix_rfl, h.1, fun hf => absurd rfl hf⟩

theorem handleWrite_carries (h : c.Holds P) (outs : List IoResult) :
    (c.handleWrite outs).Carries c P := by
  rcases c.handleWrite_cases outs with ⟨-, ho⟩ | ⟨-, data, rest, hdata, -, hcase⟩
  · rw [ho]
    exact sendFileChunked_carries h outs
  have htag : data ++ rest ≠ [] → P c.writeTag := hdata ▸ h.1
  have hsent : data ≠ [] → P c.writeTag := fun hne => htag (List.append_ne_nil_of_left_ne_nil hne rest)
  rcases hcase with ⟨-, ho⟩ | ho | ho <;> rw [ho]
  · refine ⟨by simpa [Effect.Carries] using hsent, ?_⟩
    rintro c' ⟨⟩
    exact ⟨rfl, List.suffix_rfl, fun hne => absurd rfl hne, h.2⟩
  · refine ⟨by simpa [Effect.Carries] using hsent, ?_⟩
    rintro c' ⟨⟩
    refine ⟨rfl, List.suffix_rfl, fun hne => htag ?_, h.2⟩
    simp only [← List.drop_drop, hdata, List.drop_left] at hne
    exact List.append_ne_nil_of_right_ne_nil data hne
  · exact ⟨by simpa [Effect.Carries] using hsent, by rintro c' ⟨⟩⟩

theorem sendResponse_carries (h : c.Holds P) {tag : Tag} (htag : P tag) (text : Str)
    (outs : List IoResult) :
    (∀ e ∈ (c.sendResponse tag text outs).2, e.Carries P) ∧
      (c.sendResponse tag text outs).1.peer = c.peer ∧
      (c.sendResponse tag text outs).1.readBuffer = c.readBuffer ∧
      (c.sendResponse tag text outs).1.Holds P := by
  unfold Connection.sendResponse
  split_ifs
  · simp only
    split_ifs
    · exact ⟨by simp [Effect.Carries, htag], rfl, rfl, fun _ => htag, h.2⟩
    · exact ⟨by simp [Effect.Carries, htag], rfl, rfl, h⟩
  · exact ⟨by simp [Effect.Carries], rfl, rfl, fun _ => htag, h.2⟩

theorem deliver_carries (h : c.Holds P) {tag : Tag} (htag : P tag) (resp : Response)
    (io : Connection.FlushIo) : (c.deliver tag resp io).Carries c P := by
  obtain ⟨hes, hpeer, hbuf, hholds⟩ := sendResponse_carries h htag resp.text io.outs
  by_cases hresp : resp.isFileStream
  · cases hopen : io.opened with
    | none =>
      rw [c.deliver_unopened tag hresp hopen]
      refine ⟨?_, by rintro c' ⟨⟩⟩
      intro e he
      rcases List.mem_append.1 he with he | he
      · exact hes e he
      · rw [List.mem_singleton.1 he]
        trivial
    | some fileFd =>
      rw [c.deliver_opened tag hresp hopen]
      have hstart : ((c.sendResponse tag resp.text io.outs).1.startStream tag resp.fileStreamInfo
          fileFd).Holds P := ⟨fun hne => absurd rfl hne, fun _ => htag⟩
      obtain ⟨hfile, hconn⟩ := sendFileChunked_carries hstart io.fileOuts
      have hseek : ∀ e ∈ Connection.seekStart resp.fileStreamInfo fileFd, e.Carries P := by
        unfold Connection.seekStart
        split_ifs <;> simp [Effect.Carries]
      constructor
      · intro e he
        simp only [List.mem_append, List.mem_cons] at he
        rcases he with he | rfl | he | he
        · exact hes e he
        · trivial
        · exact hseek e he
        · exact hfile e he
      · intro c' hc'
        obtain ⟨hpeer', hbuf', hholds'⟩ := hconn c' hc'
        exact ⟨hpeer'.trans hpeer, hbuf ▸ hbuf', hholds'⟩
  · rw [c.deliver_text tag io hresp]
    refine ⟨hes, ?_⟩
    rintro c' ⟨⟩
    exact ⟨hpeer, hbuf ▸ List.suffix_rfl, hholds⟩

theorem drop_carries : c.drop.Carries c P := by
  refine ⟨?_, by rintro c' ⟨⟩⟩
  unfold Connection.drop Connection.closeFile
  cases c.fileFd <;> simp [Effect.Carries]

theorem moveBuffer_carries (h : c.Holds P) : c.moveBuffer.Carries c P := by
  refine ⟨by simp [Connection.moveBuffer], ?_⟩
  rintro c' ⟨⟩
  exact ⟨rfl, List.nil_suffix, h⟩

namespace Server

section
variable {σ : Type}

/-- Every effect on a connection is a read, or sends what is known to it. -/
def Private (log : List Event) : Prop :=
  ∀ time peer e, Event.effect time peer e ∈ log →
    (∃ data, e = .received data) ∨ e.Carries (Known log peer)

/-- No worker holds bytes taken from the descriptor that is accepted, and no response waits for it. -/
def Fresh (s : Server σ) : Label → Prop
  | .accept fd => (∀ t ∈ s.taken, t.fd ≠ fd) ∧ ∀ w ∈ s.pendingWrites, w.fd ≠ fd
  | _ => True

instance (s : Server σ) : (l : Label) → Decidable (s.Fresh l)
  | .accept fd =>
    inferInstanceAs (Decidable ((∀ t ∈ s.taken, t.fd ≠ fd) ∧ ∀ w ∈ s.pendingWrites, w.fd ≠ fd))
  | .readable .. | .writable .. | .hangup _ | .timer | .wakeup | .flush _ | .take _ | .finish _
  | .tick _ | .stop => instDecidableTrue

/-- Between two steps: buffers, taken bytes and waiting responses belong to the connection that
    their descriptor names. -/
structure Attributed (s : Server σ) : Prop where
  buffer : ∀ fd c, s.connections.lookup fd = some c → c.readBuffer <:+ received s.log c.peer
  holds : ∀ fd c, s.connections.lookup fd = some c → c.Holds (Known s.log c.peer)
  data : ∀ t ∈ s.taken, t.taskData <:+: received s.log t.origin
  origin : ∀ t ∈ s.taken, ∀ c, s.connections.lookup t.fd = some c → c.peer = t.origin
  known : ∀ w ∈ s.pendingWrites ++ s.writes, Known s.log w.tag.origin w.tag
  waiting : ∀ w ∈ s.pendingWrites ++ s.writes, ∀ c, s.connections.lookup w.fd = some c →
    c.peer = w.tag.origin
  sent : Private s.log

end

section
variable {σ : Type} {dispatch : Request → σ → Except Exn Response × σ} {connectionTimeout : ℤ}
  {s : Server σ} {fd : Fd}

theorem Private.append {log es : List Event} (h : Private log)
    (hes : ∀ time peer e, Event.effect time peer e ∈ es →
      (∃ data, e = .received data) ∨ e.Carries (Known log peer)) : Private (log ++ es) := by
  intro time peer e he
  rcases List.mem_append.1 he with he | he
  · exact (h time peer e he).imp_right fun hc => hc.imp fun tag hk => hk.append es
  · exact (hes time peer e he).imp_right fun hc => hc.imp fun tag hk => hk.append es

/-- A handler on the connection at `fd` that reads `data`. -/
theorem Attributed.act (h : s.Attributed) (ho : s.Owns) (hc : s.connections.lookup fd = some c)
    {o : Outcome} (data : Str)
    (hreads : ∀ p, received (o.effects.map (.effect s.now c.peer)) p = if p = c.peer then data else [])
    (heffects : ∀ e ∈ o.effects, (∃ d, e = .received d) ∨ e.Carries (Known s.log c.peer))
    (hconn : ∀ c', o.conn = some c' → c'.peer = c.peer ∧ c'.readBuffer <:+ c.readBuffer ++ data ∧
      c'.Holds (Known s.log c.peer)) :
    (s.act fd c.peer o).Attributed := by
  have hpeer : ∀ fd' c', (s.act fd c.peer o).connections.lookup fd' = some c' →
      ∃ d, s.connections.lookup fd' = some d ∧ c'.peer = d.peer := by
    intro fd' c' hc'
    rcases Owned.place_cases ho hc hc' with ⟨rfl, hconn'⟩ | ⟨-, -, hc'⟩
    · exact ⟨c, hc, (hconn c' hconn').1⟩
    · exact ⟨c', hc', rfl⟩
  have hmono : ∀ peer, Known s.log peer ≤ Known (s.act fd c.peer o).log peer :=
    fun peer tag hk => hk.append _
  have hreceived : ∀ p, received (s.act fd c.peer o).log p =
      received s.log p ++ if p = c.peer then data else [] := by
    intro p
    rw [← hreads p]
    exact received_append _ _ _
  constructor
  case buffer =>
    intro fd' c' hc'
    rw [hreceived]
    rcases Owned.place_cases ho hc hc' with ⟨-, hconn'⟩ | ⟨-, hne, hc'⟩
    · obtain ⟨hp, hbuf, -⟩ := hconn c' hconn'
      rw [if_pos hp, hp]
      exact hbuf.trans ((List.suffix_append_inj_of_length_eq rfl).2 ⟨h.buffer fd c hc, rfl⟩)
    · rw [if_neg hne, List.append_nil]
      exact h.buffer fd' c' hc'
  case holds =>
    intro fd' c' hc'
    rcases Owned.place_cases ho hc hc' with ⟨-, hconn'⟩ | ⟨-, -, hc'⟩
    · obtain ⟨hp, -, hholds⟩ := hconn c' hconn'
      rw [hp]
      exact hholds.imp (hmono _)
    · exact (h.holds fd' c' hc').imp (hmono _)
  case data =>
    intro t ht
    rw [hreceived]
    exact (h.data t ht).trans (List.prefix_append _ _).isInfix
  case origin =>
    intro t ht c' hc'
    obtain ⟨d, hd, hp⟩ := hpeer t.fd c' hc'
    exact hp.trans (h.origin t ht d hd)
  case known =>
    intro w hw
    exact hmono _ _ (h.known w hw)
  case waiting =>
    intro w hw c' hc'
    obtain ⟨d, hd, hp⟩ := hpeer w.fd c' hc'
    exact hp.trans (h.waiting w hw d hd)
  case sent =>
    refine h.sent.append ?_
    intro time peer e he
    obtain ⟨e', he', heq⟩ := List.mem_map.1 he
    obtain ⟨-, rfl, rfl⟩ := Event.effect.inj heq
    exact heffects e' he'

theorem received_carries {es : List Effect} {P : Tag → Prop} (h : ∀ e ∈ es, e.Carries P)
    (time peer p : ℕ) : received (es.map (.effect time peer)) p = [] := by
  induction es with
  | nil => rfl
  | cons e es ih =>
    obtain ⟨he, hes⟩ := List.forall_mem_cons.1 h
    cases e <;> first | exact ih hes | exact he.elim

/-- A handler that only sends what the connection holds. -/
theorem Attributed.carries (h : s.Attributed) (ho : s.Owns) (hc : s.connections.lookup fd = some c)
    {o : Outcome} (hcar : o.Carries c (Known s.log c.peer)) : (s.act fd c.peer o).Attributed := by
  refine h.act ho hc [] ?_ ?_ ?_
  · intro p
    rw [received_carries hcar.effects, ite_self]
  · intro e he
    exact Or.inr (hcar.effects e he)
  · intro c' hconn
    rw [List.append_nil]
    exact hcar.conn c' hconn

theorem Attributed.accept (h : s.Attributed) (hw : s.writes = []) (hf : s.Fresh (.accept fd)) :
    (s.handleAccept fd).Attributed := by
  have hentry : ∀ fd' c', (s.handleAccept fd).connections.lookup fd' = some c' →
      fd' = fd ∧ c'.readBuffer = [] ∧ c'.writeBuffer = [] ∧ c'.fileFd = none ∨
        s.connections.lookup fd' = some c' := by
    intro fd' c' hc'
    rcases @place_cases s.connections fd fd'
      (some (.accept (s.connections.lookup fd) s.accepted s.now)) c' hc' with ⟨hfd, hconn⟩ | ⟨-, hc'⟩
    · obtain rfl := Option.some.inj hconn
      exact Or.inl ⟨hfd, rfl, rfl, rfl⟩
    · exact Or.inr hc'
  constructor
  case data => exact h.data
  case known => exact h.known
  case sent => exact h.sent
  case buffer =>
    intro fd' c' hc'
    rcases hentry fd' c' hc' with ⟨-, hbuf, -⟩ | hc'
    · rw [hbuf]
      exact List.nil_suffix
    · exact h.buffer fd' c' hc'
  case holds =>
    intro fd' c' hc'
    rcases hentry fd' c' hc' with ⟨-, -, hbuf, hfile⟩ | hc'
    · exact ⟨fun hne => absurd (by rw [hbuf, List.drop_nil]) hne, fun hne => absurd hfile hne⟩
    · exact h.holds fd' c' hc'
  case origin =>
    intro t ht c' hc'
    rcases hentry t.fd c' hc' with ⟨hfd, -⟩ | hc'
    · exact absurd hfd (hf.1 t ht)
    · exact h.origin t ht c' hc'
  case waiting =>
    intro w hw' c' hc'
    rcases hentry w.fd c' hc' with ⟨hfd, -⟩ | hc'
    · rw [show (s.handleAccept fd).writes = [] from hw, List.append_nil] at hw'
      exact absurd hfd (hf.2 w hw')
    · exact h.waiting w hw' c' hc'

theorem Attributed.read (h : s.Attributed) (ho : s.Owns) (hc : s.connections.lookup fd = some c)
    {reads : List ReadResult} {o : Outcome} {detach : Bool}
    (hr : c.handleRead s.now reads = .ok (o, detach)) : (s.act fd c.peer o).Attributed := by
  have hholds := h.holds fd c hc
  rcases Connection.handleRead_cases hr with ⟨-, rfl, -⟩ | ⟨rfl, -⟩ | ⟨-, rfl, -⟩
  · refine h.act ho hc (Connection.readLoop reads).1 ?_ ?_ (by rintro c' ⟨⟩)
    · intro p
      simp [received, Event.reads, eq_comm]
    · simp [Effect.Carries]
  · refine h.act ho hc [] ?_ (by simp) ?_
    · intro p
      simp [received]
    · rintro c' ⟨⟩
      exact ⟨rfl, by rw [List.append_nil], hholds⟩
  · refine h.act ho hc (Connection.readLoop reads).1 ?_ ?_ ?_
    · intro p
      simp [received, Event.reads, eq_comm]
    · simp
    · rintro c' ⟨⟩
      exact ⟨rfl, List.suffix_rfl, hholds⟩

/-- Responses leave the queue. -/
theorem Attributed.queues (h : s.Attributed) {tasks : List Fd} {taken : List Taken} {app : σ}
    {pendingWrites writes : List Pending} (htaken : taken ⊆ s.taken)
    (hsub : pendingWrites ++ writes ⊆ s.pendingWrites ++ s.writes) :
    { s with tasks, taken, app, pendingWrites, writes }.Attributed :=
  ⟨h.buffer, h.holds, fun t ht => h.data t (htaken ht), fun t ht => h.origin t (htaken ht),
    fun w hw => h.known w (hsub hw), fun w hw => h.waiting w (hsub hw), h.sent⟩

theorem Attributed.take (h : s.Attributed) (ho : s.Owns) (hc : s.connections.lookup fd = some c) :
    (s.take fd c).Attributed := by
  have hact := h.carries ho hc (moveBuffer_carries (h.holds fd c hc))
  have hlog : (s.act fd c.peer c.moveBuffer).log = s.log := List.append_nil _
  refine ⟨hact.buffer, hact.holds, ?_, ?_, hact.known, hact.waiting, hact.sent⟩
  · intro t ht
    rcases List.mem_append.1 ht with ht | ht
    · exact hact.data t ht
    · rw [List.mem_singleton.1 ht]
      show c.readBuffer <:+: received (s.act fd c.peer c.moveBuffer).log c.peer
      rw [hlog]
      exact (h.buffer fd c hc).isInfix
  · intro t ht c' hc'
    rcases List.mem_append.1 ht with ht | ht
    · exact hact.origin t ht c' hc'
    · obtain rfl := List.mem_singleton.1 ht
      rw [show (s.take fd c).connections = place s.connections fd c.moveBuffer.conn from rfl,
        lookup_place, if_pos rfl] at hc'
      obtain rfl := Option.some.inj hc'
      rfl

theorem Attributed.enqueue (h : s.Attributed) {t : Taken}
    (hdata : t.taskData <:+: received s.log t.origin)
    (horigin : ∀ c, s.connections.lookup t.fd = some c → c.peer = t.origin) (response : Response) :
    (s.enqueueResponse t response).Attributed := by
  have hmono : ∀ peer tag, Known s.log peer tag → Known (s.enqueueResponse t response).log peer tag :=
    fun peer tag hk => hk.append _
  have hreceived : ∀ p, received (s.enqueueResponse t response).log p = received s.log p := by
    intro p
    exact (received_append _ _ _).trans (List.append_nil _)
  have hpending : ∀ w ∈ (s.enqueueResponse t response).pendingWrites ++
      (s.enqueueResponse t response).writes,
      w ∈ s.pendingWrites ++ s.writes ∨ w = ⟨t.fd, ⟨s.serial, t.origin⟩, response⟩ := by
    intro w hw
    simp only [enqueueResponse, List.mem_append, List.mem_singleton] at hw ⊢
    tauto
  refine ⟨?_, ?_, ?_, h.origin, ?_, ?_, h.sent.append (by simp)⟩
  · intro fd c hc
    rw [hreceived]
    exact h.buffer fd c hc
  · intro fd c hc
    exact (h.holds fd c hc).imp (hmono _)
  · intro t' ht'
    rw [hreceived]
    exact h.data t' ht'
  · intro w hw
    rcases hpending w hw with hw | rfl
    · exact hmono _ _ (h.known w hw)
    · refine ⟨rfl, t.taskData, response, List.mem_append_right _ (List.mem_singleton_self _), ?_⟩
      rw [hreceived]
      exact hdata
  · intro w hw c hc
    rcases hpending w hw with hw | rfl
    · exact h.waiting w hw c hc
    · exact horigin c hc

theorem Attributed.note (h : s.Attributed) (time peer : ℕ) :
    { s with log := s.log ++ [Event.swept time peer] }.Attributed := by
  have hreceived : ∀ p, received (s.log ++ [Event.swept time peer]) p = received s.log p :=
    fun p => (received_append _ _ _).trans (List.append_nil _)
  refine ⟨?_, ?_, ?_, h.origin, ?_, h.waiting, h.sent.append (by simp)⟩
  · intro fd c hc
    rw [hreceived]
    exact h.buffer fd c hc
  · intro fd c hc
    exact (h.holds fd c hc).imp fun tag hk => hk.append _
  · intro t ht
    rw [hreceived]
    exact h.data t ht
  · intro w hw
    exact (h.known w hw).append _

theorem Attributed.perform (h : s.Attributed) (ho : s.Owns) {l : Label} (hl : Enabled s l)
    (hf : s.Fresh l) : (s.perform dispatch connectionTimeout l).Attributed := by
  cases l with
  | accept fd => exact h.accept hl.1.2 hf
  | readable fd reads =>
    have hqueues : { s with terminated := true }.Attributed :=
      ⟨h.buffer, h.holds, h.data, h.origin, h.known, h.waiting, h.sent⟩
    refine handleRead_inv h hqueues fun c o detach hc hr => ?_
    exact (h.read ho hc hr).queues (List.Subset.refl _) (List.Subset.refl _)
  | writable fd outs => exact on_inv h fun c hc => h.carries ho hc (handleWrite_carries (h.holds fd c hc) outs)
  | hangup fd => exact on_inv h fun c hc => h.carries ho hc drop_carries
  | timer =>
    refine (cleanupTimeouts_inv (I := fun s : Server σ => s.Owns ∧ s.Attributed) ⟨ho, h⟩ ?_).2
    rintro s' fd c ⟨ho', h'⟩ hc - - -
    exact ⟨Owns.act (s := { s' with log := _ }) ho' hc net_drop,
      (h'.note s'.now c.peer).carries ho' hc drop_carries⟩
  | wakeup =>
    refine h.queues (List.Subset.refl _) ?_
    rw [hl.2, List.append_nil, List.nil_append]
    exact List.Subset.refl _
  | flush io =>
    have hpop : ∀ w writes, s.writes = w :: writes → { s with writes }.Attributed := by
      intro w writes hw
      refine h.queues (List.Subset.refl _) ?_
      rw [hw]
      exact List.append_subset.2 ⟨List.subset_append_left _ _, fun w' hw' =>
        List.mem_append_right _ (List.mem_cons_of_mem w hw')⟩
    refine processPending_inv h (fun w writes hw _ => hpop w writes hw) fun w writes c hw hc => ?_
    have hmem : w ∈ s.pendingWrites ++ s.writes := by simp [hw]
    have hknown : Known s.log c.peer w.tag := by
      rw [h.waiting w hmem c hc]
      exact h.known w hmem
    exact (hpop w writes hw).carries ho hc (deliver_carries (h.holds w.fd c hc) hknown w.response io)
  | take i =>
    have hqueues : ∀ tasks, { s with tasks }.Attributed := fun _ =>
      h.queues (List.Subset.refl _) (List.Subset.refl _)
    exact takeBuffer_inv h hqueues fun tasks fd c hc => (hqueues tasks).take ho hc
  | finish i =>
    refine finishTask_inv h fun t app ht => ?_
    have hmem := List.mem_of_getElem? ht
    have htaken : { s with taken := s.taken.eraseIdx i, app }.Attributed :=
      h.queues (fun _ => List.mem_of_mem_eraseIdx) (List.Subset.refl _)
    exact ⟨htaken, fun response => htaken.enqueue (h.data t hmem) (h.origin t hmem) response⟩
  | tick dt => exact ⟨h.buffer, h.holds, h.data, h.origin, h.known, h.waiting, h.sent⟩
  | stop =>
    refine (stop_inv (I := fun s : Server σ => s.Owns ∧ s.Attributed)
      ⟨ho, ⟨h.buffer, h.holds, h.data, h.origin, h.known, h.waiting, h.sent⟩⟩ ?_).2
    rintro s' fd c ⟨ho', h'⟩ hc -
    exact ⟨Owns.act ho' hc net_drop, h'.carries ho' hc drop_carries⟩

/-- **Runs with fresh descriptors** keep the responses private. -/
theorem fresh_private (app : σ) (run : List Label)
    (h : Run.Each (Server.step dispatch connectionTimeout)
      (fun s l => s.terminated = false ∧ Enabled s l → s.Fresh l) (start app) run) :
    Private (Run.exec (Server.step dispatch connectionTimeout) (start app) run).log := by
  have hstart : (start app).Attributed := by
    refine ⟨?_, ?_, ?_, ?_, ?_, ?_, ?_⟩ <;> simp [start, Private]
  exact (run_induction (I := Attributed) (fun _ _ ho hs hl hf => hs.perform ho hl hf) hstart h).sent

end

/-! ## A descriptor that is handed out again -/

/-- A router that always answers 200. -/
def ok200 (_ : Request) (app : Unit) : Except Exn Response × Unit := (.ok {}, app)

/-- A second client is accepted when the first has been answered. -/
theorem answered_private :
    Private (Run.exec (Server.step ok200 60) (start ())
      [.accept 7, .readable 7 [.bytes ask], .take 0, .finish 0, .wakeup, .flush ⟨[.wrote 100], none, []⟩,
        .readable 7 [.bytes []], .accept 7]).log :=
  fresh_private () _ (by decide +kernel)

/-- The first client leaves while a worker holds its request, and the second is accepted on the same
    descriptor: it is sent the answer to the first. -/
theorem reused_leaks :
    ¬ Private (Run.exec (Server.step ok200 60) (start ())
      [.accept 7, .readable 7 [.bytes ask], .take 0, .readable 7 [.bytes []], .accept 7, .finish 0,
        .wakeup, .flush ⟨[.wrote 100], none, []⟩]).log := by
  intro h
  rcases h 0 1 (.sent ⟨0, 0⟩ (Response.serialize {})) (by decide +kernel) with ⟨data, he⟩ | hc
  · cases he
  · have horigin := (hc (by decide +kernel)).1
    cases horigin

end Server

end NarMusic
