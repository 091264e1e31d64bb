/-
  What is sent on one connection, and in which order.

  A run delivers responses to the connection and lets `handleWrite` continue;
  its trace records the bytes of each response, told apart by their tags, and the
  remainders `sendResponse` has stored.

  * `Kept`: a stored remainder is sent in full before anything else, and until
    then the connection still holds what is missing of it;
  * the runs that keep it: every response finds `writeBuffer` sent, and is
    accepted at once where a file body follows or is still being streamed
    (`safe_kept`).
-/
import NarMusic.Server.Connection
import NarMusic.Lib.Run

namespace NarMusic

open Cxx

/-- A byte on the socket: of the text of a response, or of its file. -/
abbrev Cell := Tag × Option Byte

def textCells (tag : Tag) (text : Str) : List Cell := text.map fun b => (tag, some b)

/-- What the effects put on the socket. -/
def wireCells : List Effect → List Cell
  | [] => []
  | .sent tag data :: es => textCells tag data ++ wireCells es
  | .sentFile tag _ n :: es => List.replicate n (tag, none) ++ wireCells es
  | _ :: es => wireCells es

@[simp] theorem wireCells_append (es es' : List Effect) :
    wireCells (es ++ es') = wireCells es ++ wireCells es' := by
  fun_induction wireCells es <;> simp_all [wireCells]

@[simp] theorem textCells_append (tag : Tag) (s t : Str) :
    textCells tag (s ++ t) = textCells tag s ++ textCells tag t := List.map_append

@[simp] theorem textCells_nil (tag : Tag) : textCells tag [] = [] := rfl

/-! ## Sending a text -/

namespace Connection

/-- The text runs into `EAGAIN` before it is accepted, or is not even tried. -/
def Stalls (text : Str) (outs : List IoResult) : Prop :=
  65536 < text.length ∨ granted outs < text.length ∧ refusal outs = .again

instance (text : Str) (outs : List IoResult) : Decidable (Stalls text outs) := instDecidableOr

/-- Nothing of the text is accepted. -/
def Refuses (text : Str) (outs : List IoResult) : Prop :=
  65536 < text.length ∨ granted outs = 0

instance (text : Str) (outs : List IoResult) : Decidable (Refuses text outs) := instDecidableOr

/-- What `sendResponse` sends of a text. -/
def sentText (text : Str) (outs : List IoResult) : Str :=
  if 65536 < text.length then [] else text.take (granted outs)

section
variable {c : Connection} {tag : Tag} {text : Str} {outs : List IoResult}

theorem sentText_refused (h : Refuses text outs) : sentText text outs = [] := by
  unfold sentText
  rcases h with h | h <;> simp [h]

theorem sendResponse_accepted (h : ¬ Stalls text outs) :
    c.sendResponse tag text outs = (c, [.sent tag (sentText text outs)]) := by
  simp only [Stalls, not_or, not_lt, not_and] at h
  obtain ⟨hle, h⟩ := h
  have hne : (sendLoop text.length outs).2 ≠ .again := by
    rw [sendLoop_eq]
    split_ifs with hacc
    · simp
    · exact h (by omega)
  simp only [sendLoop_eq] at hne
  simp only [sendResponse, if_pos hle, sendLoop_eq, if_neg hne, sentText, if_neg (not_lt.2 hle)]
  rw [min_comm, ← List.take_eq_take_min]

theorem sendResponse_stalled (c : Connection) (tag : Tag) (h : Stalls text outs) :
    ∃ es rem, text = sentText text outs ++ rem ∧ wireCells es = textCells tag (sentText text outs) ∧
      (∀ t r, .stored t r ∉ es) ∧
      c.sendResponse tag text outs =
        ({ c with writeBuffer := rem, written := 0, writeTag := tag }, es ++ [.stored tag rem]) := by
  by_cases hlong : 65536 < text.length
  · refine ⟨[], text, ?_, ?_, by simp, ?_⟩
    · simp [sentText, hlong]
    · simp [sentText, hlong, wireCells]
    · rw [sendResponse, if_neg (not_le.2 hlong)]
      rfl
  · obtain ⟨hacc, hagain⟩ := h.resolve_left hlong
    have hloop : sendLoop text.length outs = (granted outs, .again) := by
      rw [sendLoop_eq, if_neg (not_le.2 hacc), hagain, min_eq_right hacc.le]
    refine ⟨[.sent tag (text.take (granted outs))], text.drop (granted outs), ?_, ?_, by simp, ?_⟩
    · simp [sentText, hlong]
    · simp [sentText, hlong, wireCells]
    · simp [sendResponse, not_lt.1 hlong, hloop]

theorem sendResponse_refused (h : Refuses text outs) :
    wireCells (c.sendResponse tag text outs).2 = [] := by
  by_cases hstall : Stalls text outs
  · obtain ⟨es, rem, -, hes, -, hr⟩ := c.sendResponse_stalled tag hstall
    rw [hr, wireCells_append, hes, sentText_refused h]
    rfl
  · rw [sendResponse_accepted hstall, sentText_refused h]
    rfl

theorem sendResponse_streaming :
    (c.sendResponse tag text outs).1.Streaming ↔ c.Streaming := by
  by_cases hstall : Stalls text outs
  · obtain ⟨es, rem, -, -, -, hr⟩ := c.sendResponse_stalled tag hstall
    rw [hr]
    rfl
  · rw [sendResponse_accepted hstall]

end

/-- What the connection holds of a stored text. -/
def pending (c : Connection) : List Cell := textCells c.writeTag (c.writeBuffer.drop c.written)

end Connection

/-! ## Stored remainders -/

/-- Every stored remainder has been sent in full before anything else, or only a part of it has
    been sent and `held`, if the connection is there, is the rest. -/
def Kept (trace : List Effect) (held : Option (List Cell)) : Prop :=
  ∀ pre tag rem post, trace = pre ++ .stored tag rem :: post →
    textCells tag rem <+: wireCells post ∨
      wireCells post <+: textCells tag rem ∧
        ∀ cells, held = some cells → wireCells post ++ cells = textCells tag rem

section
variable {trace es : List Effect} {held : Option (List Cell)} {cells rest : List Cell}

/-- Effects that store nothing and send the first of the cells held. -/
theorem Kept.send (h : Kept trace (some cells)) (hes : ∀ t r, .stored t r ∉ es)
    (hw : cells = wireCells es ++ rest) : Kept (trace ++ es) (some rest) := by
  intro pre tag rem post hsplit
  obtain ⟨mid, htrace, rfl⟩ := Run.split_append (hes tag rem) hsplit
  rw [wireCells_append]
  rcases h pre tag rem mid htrace with hall | ⟨-, hpart⟩
  · exact Or.inl (hall.trans (List.prefix_append _ _))
  · have heq := hpart cells rfl
    rw [hw, ← List.append_assoc] at heq
    refine Or.inr ⟨⟨rest, heq⟩, ?_⟩
    intro cells' hc
    rw [← Option.some.inj hc, heq]

/-- When nothing is held, every remainder has been sent. -/
theorem Kept.all_sent (h : Kept trace (some [])) {pre post : List Effect} {tag : Tag} {rem : Str}
    (hsplit : trace = pre ++ .stored tag rem :: post) : textCells tag rem <+: wireCells post := by
  rcases h pre tag rem post hsplit with hall | ⟨-, hpart⟩
  · exact hall
  · rw [← hpart [] rfl, List.append_nil]

/-- When nothing is held, anything may be sent. -/
theorem Kept.free (h : Kept trace (some [])) (hes : ∀ t r, .stored t r ∉ es) :
    Kept (trace ++ es) (some []) := by
  intro pre tag rem post hsplit
  obtain ⟨mid, htrace, rfl⟩ := Run.split_append (hes tag rem) hsplit
  rw [wireCells_append]
  exact Or.inl ((h.all_sent htrace).trans (List.prefix_append _ _))

/-- When nothing is held, a remainder may be stored. -/
theorem Kept.store (h : Kept trace (some [])) (tag : Tag) (rem : Str) :
    Kept (trace ++ [.stored tag rem]) (some (textCells tag rem)) := by
  intro pre tag' rem' post hsplit
  rcases post.eq_nil_or_concat with rfl | ⟨post, e, rfl⟩
  · obtain ⟨-, he⟩ := List.append_inj' hsplit rfl
    obtain ⟨rfl, rfl⟩ : tag = tag' ∧ rem = rem' := by simpa using he
    exact Or.inr ⟨List.nil_prefix, fun cells hc => by rw [← Option.some.inj hc]; rfl⟩
  · rw [List.concat_eq_append, ← List.cons_append, ← List.append_assoc] at hsplit
    obtain ⟨htrace, he⟩ := List.append_inj' hsplit rfl
    obtain rfl := (List.cons.inj he).1
    rw [List.concat_eq_append, wireCells_append]
    exact Or.inl ((h.all_sent htrace).trans (List.prefix_append _ _))

/-- The connection is closed, and nothing more is sent. -/
theorem Kept.close (h : Kept trace held) (hw : wireCells es = []) : Kept (trace ++ es) none := by
  intro pre tag rem post hsplit
  -- Stored before the effects, or by them.
  rcases List.append_eq_append_iff.1 hsplit with ⟨mid, -, rfl⟩ | ⟨mid, htrace, hpost⟩
  · rw [wireCells_append, List.append_eq_nil_iff] at hw
    rw [show wireCells post = [] from hw.2]
    exact Or.inr ⟨List.nil_prefix, fun cells hc => by cases hc⟩
  · cases mid with
    | nil =>
      rw [List.nil_append] at hpost
      rw [← hpost] at hw
      rw [show wireCells post = [] from hw]
      exact Or.inr ⟨List.nil_prefix, fun cells hc => by cases hc⟩
    | cons e mid =>
      obtain ⟨rfl, hmid⟩ := List.cons.inj hpost
      rw [show post = mid ++ es from hmid, wireCells_append, hw, List.append_nil]
      rcases h pre tag rem mid htrace with hall | ⟨hpart, -⟩
      · exact Or.inl hall
      · exact Or.inr ⟨hpart, fun cells hc => by cases hc⟩

/-- When nothing is held, a text may be sent, and what is left of it stored. -/
theorem Kept.sendResponse {c : Connection} (hp : c.pending = []) (h : Kept trace (some []))
    (tag : Tag) (text : Str) (outs : List IoResult) :
    Kept (trace ++ (c.sendResponse tag text outs).2)
      (some (c.sendResponse tag text outs).1.pending) := by
  by_cases hstall : Connection.Stalls text outs
  · obtain ⟨es, rem, -, -, hes, hr⟩ := c.sendResponse_stalled tag hstall
    rw [hr, ← List.append_assoc]
    exact (h.free hes).store tag rem
  · rw [Connection.sendResponse_accepted hstall, hp]
    exact h.free (by simp)

end

/-! ## Runs of one connection -/

/-- One connection, and the effects on it so far. -/
structure Link where
  conn : Option Connection
  trace : List Effect

namespace Link

inductive Label where
  /-- `processPendingWrites` comes to a response for the connection. -/
  | respond (tag : Tag) (resp : Response) (io : Connection.FlushIo)
  /-- `EPOLLOUT`. -/
  | writable (outs : List IoResult)

def step (s : Link) (l : Label) : Link :=
  match s.conn with
  | none => s
  | some c =>
    let o := match l with
      | .respond tag resp io => c.deliver tag resp io
      | .writable outs => c.handleWrite outs
    ⟨o.conn, s.trace ++ o.effects⟩

/-- Every remainder stored so far has been kept. -/
def Keeps (s : Link) : Prop := Kept s.trace (s.conn.map Connection.pending)

/-- `writeBuffer` has been sent when a response comes, or nothing of the response is accepted; and
    where a file body follows or is being streamed, the text is not stored. -/
def Safe (s : Link) : Label → Prop
  | .writable _ => True
  | .respond _ resp io => ∀ c ∈ s.conn,
    if resp.isFileStream then
      match io.opened with
      | none => c.pending = [] ∨ Connection.Refuses resp.text io.outs
      | some _ => c.pending = [] ∧ ¬ Connection.Stalls resp.text io.outs
    else c.pending = [] ∧ (c.Streaming → ¬ Connection.Stalls resp.text io.outs) ∨
      Connection.Refuses resp.text io.outs ∧ ¬ Connection.Stalls resp.text io.outs

instance (s : Link) (l : Label) : Decidable (Safe s l) := by
  rcases l with ⟨tag, resp, ⟨outs, opened, fileOuts⟩⟩ | outs
  · unfold Safe
    cases opened <;> infer_instance
  · exact instDecidableTrue

/-- Between two steps: what has been stored is kept, and nothing is held while a file is being
    streamed. -/
def Inv (s : Link) : Prop :=
  s.Keeps ∧ ∀ c, s.conn = some c → c.Streaming → c.pending = []

theorem Inv.free {trace es : List Effect} {conn : Option Connection} (h : Kept trace (some []))
    (hes : ∀ t r, .stored t r ∉ es) (hconn : ∀ c, conn = some c → c.pending = []) :
    Inv ⟨conn, trace ++ es⟩ := by
  refine ⟨?_, fun c hc _ => hconn c hc⟩
  cases conn with
  | none =>
    have hclose : Kept ((trace ++ es) ++ []) none := (h.free hes).close rfl
    rwa [List.append_nil] at hclose
  | some c =>
    rw [Keeps, Option.map_some, hconn c rfl]
    exact h.free hes

theorem sendFileChunked_stores (c : Connection) (outs : List IoResult) (t : Tag) (r : Str) :
    .stored t r ∉ (c.sendFileChunked outs).effects := by
  have hunlink : .stored t r ∉ c.unlinkCleanup := by
    unfold Connection.unlinkCleanup
    split_ifs <;> simp
  rcases c.sendFileChunked_cases outs with ⟨-, h⟩ | ⟨fileFd, -, ⟨-, h⟩ | ⟨-, h⟩ | ⟨-, h⟩⟩ <;>
    simp [h, Connection.chunks, hunlink]

theorem sendFileChunked_pending {c c' : Connection} {outs : List IoResult}
    (h : (c.sendFileChunked outs).conn = some c') : c'.pending = c.pending := by
  rcases c.sendFileChunked_cases outs with ⟨-, ho⟩ | ⟨fileFd, -, ⟨-, ho⟩ | ⟨-, ho⟩ | ⟨-, ho⟩⟩ <;>
    rw [ho] at h
  · obtain rfl := Option.some.inj h
    rfl
  · obtain rfl := Option.some.inj h
    rfl
  · cases h
  · obtain rfl := Option.some.inj h
    rfl

/-- The buffered branch of `handleWrite` sends the first of what is pending. -/
theorem handleWrite_buffered {c : Connection} (hs : ¬ c.Streaming) (outs : List IoResult) :
    (∀ t r, .stored t r ∉ (c.handleWrite outs).effects) ∧
      ((c.handleWrite outs).conn = none ∧
          wireCells (c.handleWrite outs).effects <+: c.pending ∨
        ∃ c', (c.handleWrite outs).conn = some c' ∧ ¬ c'.Streaming ∧
          c.pending = wireCells (c.handleWrite outs).effects ++ c'.pending) := by
  rcases c.handleWrite_cases outs with ⟨h, -⟩ | ⟨-, data, rest, hdata, -, ⟨rfl, ho⟩ | ho | ho⟩
  · exact absurd h hs
  · rw [ho]
    refine ⟨by simp, Or.inr ⟨_, rfl, hs, ?_⟩⟩
    simp [Connection.pending, hdata, wireCells]
  · rw [ho]
    refine ⟨by simp, Or.inr ⟨_, rfl, hs, ?_⟩⟩
    have hrest : c.writeBuffer.drop (c.written + data.length) = rest := by
      rw [← List.drop_drop, hdata, List.drop_left]
    simp [Connection.pending, hdata, hrest, wireCells]
  · rw [ho]
    refine ⟨by simp, Or.inl ⟨rfl, ?_⟩⟩
    simp [Connection.pending, hdata, wireCells]

theorem inv_writable {c : Connection} {trace : List Effect} (h : Inv ⟨some c, trace⟩)
    (outs : List IoResult) :
    Inv ⟨(c.handleWrite outs).conn, trace ++ (c.handleWrite outs).effects⟩ := by
  obtain ⟨hkept, hstream⟩ := h
  by_cases hs : c.Streaming
  · have hp := hstream c rfl hs
    have hw : c.handleWrite outs = c.sendFileChunked outs := if_pos hs
    rw [Keeps, Option.map_some, hp] at hkept
    rw [hw]
    exact Inv.free hkept (sendFileChunked_stores c outs) fun c' hc' =>
      (sendFileChunked_pending hc').trans hp
  · obtain ⟨hes, ⟨hconn, rest, hrest⟩ | ⟨c', hconn, hs', hrest⟩⟩ := handleWrite_buffered hs outs
    · rw [hconn]
      refine ⟨?_, fun c hc => by cases hc⟩
      have hclose : Kept ((trace ++ _) ++ []) none :=
        (hkept.send hes hrest.symm).close rfl
      rwa [List.append_nil] at hclose
    · rw [hconn]
      exact ⟨hkept.send hes hrest, fun c hc hs => absurd (Option.some.inj hc ▸ hs) hs'⟩

theorem inv_respond {c : Connection} {trace : List Effect} (h : Inv ⟨some c, trace⟩) {tag : Tag}
    {resp : Response} {io : Connection.FlushIo} (hsafe : Safe ⟨some c, trace⟩ (.respond tag resp io)) :
    Inv ⟨(c.deliver tag resp io).conn, trace ++ (c.deliver tag resp io).effects⟩ := by
  obtain ⟨hkept, hstream⟩ := h
  have hsafe := hsafe c rfl
  rw [Keeps, Option.map_some] at hkept
  by_cases hfile : resp.isFileStream
  · rw [if_pos hfile] at hsafe
    cases hopen : io.opened with
    | none =>
      rw [hopen] at hsafe
      rw [c.deliver_unopened tag hfile hopen]
      refine ⟨?_, fun c' hc' => by cases hc'⟩
      rcases hsafe with hp | href
      · rw [hp] at hkept
        rw [← List.append_assoc]
        exact (hkept.sendResponse hp tag _ _).close rfl
      · exact hkept.close (by simp [Connection.sendResponse_refused href, wireCells])
    | some fileFd =>
      simp only [hopen] at hsafe
      obtain ⟨hp, hstall⟩ := hsafe
      rw [c.deliver_opened tag hfile hopen, Connection.sendResponse_accepted hstall]
      rw [hp] at hkept
      refine Inv.free hkept ?_ ?_
      · intro t r
        have hseek : .stored t r ∉ Connection.seekStart resp.fileStreamInfo fileFd := by
          unfold Connection.seekStart
          split_ifs <;> simp
        simp [hseek, sendFileChunked_stores]
      · intro c' hc'
        exact (sendFileChunked_pending hc').trans rfl
  · rw [if_neg hfile] at hsafe
    rw [c.deliver_text tag io hfile]
    rcases hsafe with ⟨hp, hs⟩ | ⟨href, hstall⟩
    · rw [hp] at hkept
      refine ⟨hkept.sendResponse hp tag _ _, ?_⟩
      intro c' hc' hs'
      obtain rfl := Option.some.inj hc'
      have hstall := hs (Connection.sendResponse_streaming.1 hs')
      rw [Connection.sendResponse_accepted hstall]
      exact hp
    · rw [Connection.sendResponse_accepted hstall, Connection.sentText_refused href]
      exact ⟨hkept.send (by simp) (by simp [wireCells]), hstream⟩

theorem inv_step (s : Link) (l : Label) (h : Inv s) (hsafe : Safe s l) : Inv (s.step l) := by
  obtain ⟨conn, trace⟩ := s
  cases conn with
  | none => exact h
  | some c =>
    cases l with
    | respond tag resp io => exact inv_respond h hsafe
    | writable outs => exact inv_writable h outs

/-- A connection that holds nothing, before any response. -/
def start (c : Connection) : Link := ⟨some c, []⟩

/-- **Stored remainders are kept** in the runs whose steps are safe. -/
theorem safe_kept (c : Connection) (hp : c.pending = []) (run : List Label)
    (h : Run.Each step Safe (start c) run) : (Run.exec step (start c) run).Keeps :=
  (h.inv inv_step ⟨fun pre tag rem post hsplit => by simp [start] at hsplit,
    fun c' hc' _ => Option.some.inj hc' ▸ hp⟩).1

/-- A short write, the rest of it, and a second response. -/
theorem short_write_kept :
    (Run.exec step (start { peer := 0 })
      [.respond ⟨0, 0⟩ {} ⟨[.wrote 10], none, []⟩, .writable [.wrote 100],
        .respond ⟨1, 0⟩ {} ⟨[.wrote 100], none, []⟩]).Keeps :=
  safe_kept { peer := 0 } (by decide) _ (by decide +kernel)

/-- After a short write, a second response overtakes the remainder, and the body of a file
    overtakes that of its own header block. -/
theorem short_write_overtaken :
    ¬ (Run.exec step (start { peer := 0 })
      [.respond ⟨0, 0⟩ {} ⟨[.wrote 10], none, []⟩,
        .respond ⟨1, 0⟩ {} ⟨[.wrote 100], none, []⟩]).Keeps ∧
    ¬ (Run.exec step (start { peer := 0 })
      [.respond ⟨0, 0⟩ (.streamFile { fileSize := 4, rangeEnd := 3 })
        ⟨[.wrote 10], some 9, [.wrote 4]⟩]).Keeps := by
  constructor
  · intro h
    rcases h [.sent ⟨0, 0⟩ ((Response.serialize {}).take 10)] ⟨0, 0⟩ ((Response.serialize {}).drop 10)
      [.sent ⟨1, 0⟩ (Response.serialize {})] (by decide +kernel) with hall | ⟨hpart, -⟩
    · exact absurd hall (by decide +kernel)
    · exact absurd hpart (by decide +kernel)
  · intro h
    rcases h [.sent ⟨0, 0⟩ (lit "HTTP/1.1 2")] ⟨0, 0⟩
      ((Response.streamFile { fileSize := 4, rangeEnd := 3 }).serializeHeaders.drop 10)
      [.opened 9, .sentFile ⟨0, 0⟩ 9 4, .closedFile 9] (by decide +kernel) with hall | ⟨hpart, -⟩
    · exact absurd hall (by decide +kernel)
    · exact absurd hpart (by decide +kernel)

end Link

end NarMusic
