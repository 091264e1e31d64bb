/-
  SMTP dialogues (`infrastructure/notification/email_sender.cpp`).

  A read gets what has arrived of a reply, and `readResponse` reads on until the last line that is
  complete ends the reply.  The byte it looks at for that is the third one from the end of the line,
  not the fourth one of the line: a line of a reply that goes on is told by a dash there, whatever
  stands behind its code (`dashed`).
-/
import NarMusic.Core.Base64
import NarMusic.Main.Config
import Mathlib.Data.List.DropRight

namespace NarMusic.Smtp

open Cxx

/-! ## Reading -/

/-- `s.rfind(pat)` -/
def rfindStr (pat : Str) : Str → Option ℕ
  | [] => if pat = [] then some 0 else none
  | c :: s =>
    match rfindStr pat s with
    | some i => some (i + 1)
    | none => if pat <+: c :: s then some 0 else none

/-- The test after a read.  With the line end at 0 the second search is one from the end. -/
def isComplete (out : Str) : Bool :=
  decide (4 ≤ out.length) &&
    match rfindStr [13, 10] out with
    | none => false
    | some lastCRLF =>
      let lineStart :=
        match rfindStr [10] (if lastCRLF = 0 then out else out.take lastCRLF) with
        | none => 0
        | some i => i + 1
      decide (lineStart + 3 ≤ lastCRLF) && decide (out[lastCRLF - 3]? ≠ some 45)

/-- What a call has read, what has arrived and was not read, and whether it has waited for more until
    the timeout. -/
structure Read where
  resp : Str
  unread : List Str
  waited : Bool

/-- The loop over what the reads get. -/
def readLoop : List Str → Str → Read
  | [], out => ⟨out, [], true⟩
  | buf :: unread, out =>
    let out := out ++ cStr buf
    if isComplete out then ⟨out, unread, false⟩ else readLoop unread out

def readResponse (arrived : List Str) : Read :=
  let read := readLoop arrived []
  { read with resp := read.resp.rdropWhile fun c => c = 13 || c = 10 }

def getResponseCode (resp : Str) : ℤ := if 3 ≤ resp.length then (stoll (resp.take 3)).getD (-1) else -1

/-! ## Replies -/

structure Line where
  code : Str
  text : Str
  digits : code.length = 3 ∧ ∀ c ∈ code, isdigit c = true
  plain : ∀ c ∈ text, c ≠ 13 ∧ c ≠ 10 ∧ c ≠ 0

structure Reply where
  front : List Line
  last : Line

/-- Lines with a line end behind each. -/
def crlf (lines : List Str) : Str := lines.flatMap (· ++ [13, 10])

namespace Reply

/-- The last line, without its line end. -/
def final (r : Reply) : Str := r.last.code ++ 32 :: r.last.text

def continued (r : Reply) : List Str := r.front.map fun l => l.code ++ 45 :: l.text

def lines (r : Reply) : List Str := r.continued ++ [r.final]

def bytes (r : Reply) : Str := crlf r.lines

/-- Without the last line end. -/
def text (r : Reply) : Str := crlf r.continued ++ r.final

end Reply

/-- A reply, with what the reads get of it. -/
structure Sent where
  reply : Reply
  chunks : List Str
  joined : chunks.flatten = reply.bytes
  sizes : ∀ chunk ∈ chunks, 1 ≤ chunk.length ∧ chunk.length ≤ 1023

/-- `readResponse` has read the whole reply, no more, and without waiting. -/
def Sent.Framed (x : Sent) : Prop := readResponse x.chunks = ⟨x.reply.text, [], false⟩

/-! ## Dialogues -/

/-- What is written before a reply is read, and the codes with which the dialogue goes on. -/
structure Exchange where
  sent : Option Str
  accepts : ℤ → Bool

/-- `sendCommand(cmd)` -/
def command (cmd : Str) : Option Str := some (cmd ++ [13, 10])

/-- An exchange that has taken place. -/
structure Round where
  sent : Option Str
  reply : Sent
  read : Read

/-- Each command is answered by the next reply of the server; what was not read stands before it. -/
def converse (server : ℕ → Sent) : List Exchange → ℕ → List Str → List Round
  | [], _, _ => []
  | x :: xs, n, unread =>
    let read := readResponse (unread ++ (server n).chunks)
    ⟨x.sent, server n, read⟩ ::
      if x.accepts (getResponseCode read.resp) then converse server xs (n + 1) read.unread else []

/-- The server is ready, and with a port for plain connections the connection becomes one with TLS. -/
def greetings (implicitSsl handshake : Bool) : List Exchange :=
  if implicitSsl then [⟨none, (· = 220)⟩]
  else [⟨none, (· = 220)⟩, ⟨command (lit "EHLO NarMusic"), fun _ => true⟩,
    ⟨command (lit "STARTTLS"), fun code => code = 220 && handshake⟩]

def payload (account : EmailAccount) (subject body dateStr : Str) : Str :=
  lit "Date: " ++ dateStr ++ lit "\r\n" ++
  lit "To: " ++ account.receiver ++ lit "\r\n" ++
  lit "From: NarMusic <" ++ account.sender ++ lit ">\r\n" ++
  lit "Subject: =?UTF-8?B?" ++ EmailSender.base64Encode subject ++ lit "?=\r\n" ++
  lit "MIME-Version: 1.0\r\n" ++
  lit "Content-Type: text/plain; charset=UTF-8\r\n" ++
  lit "Content-Transfer-Encoding: base64\r\n" ++
  lit "\r\n" ++
  EmailSender.base64Encode body ++ lit "\r\n" ++
  lit ".\r\n"

/-- The exchanges up to the one with the mail. -/
def mailing (account : EmailAccount) (subject body dateStr : Str) : List Exchange :=
  [⟨command (lit "EHLO NarMusic"), fun code => 200 ≤ code && code < 400⟩,
    ⟨command (lit "AUTH PLAIN " ++
      EmailSender.base64Encode ([0] ++ account.sender ++ [0] ++ account.password)), (· = 235)⟩,
    ⟨command (lit "MAIL FROM:<" ++ account.sender ++ lit ">"), (· = 250)⟩,
    ⟨command (lit "RCPT TO:<" ++ account.receiver ++ lit ">"), (· = 250)⟩,
    ⟨command (lit "DATA"), (· = 354)⟩,
    ⟨some (payload account subject body dateStr), fun _ => true⟩]

def quit : Exchange := ⟨command (lit "QUIT"), fun _ => true⟩

/-- Whether the mail has been delivered, and the rounds of the dialogue. -/
def sendTo (config : EmailConfig) (account : EmailAccount) (subject body dateStr : Str)
    (connected handshake : Bool) (server : ℕ → Sent) : Bool × List Round :=
  let implicitSsl : Bool := config.smtp_port = 465
  if account.sender = [] ∨ account.password = [] ∨ account.receiver = [] then (false, [])
  else if (find [64] account.sender).isNone || (find [64] account.receiver).isNone then (false, [])
  else if connected = false ∨ implicitSsl = true ∧ handshake = false then (false, [])
  else
    let before := greetings implicitSsl handshake ++ mailing account subject body dateStr
    let rounds := converse server (before ++ [quit]) 0 []
    (rounds.length = before.length + 1 &&
      rounds[before.length - 1]?.any fun r => getResponseCode r.read.resp = 250, rounds)

/-- The command has got its own reply. -/
def Round.Matched (r : Round) : Prop := r.read = ⟨r.reply.reply.text, [], false⟩

/-! ## What the test sees -/

/-- The third byte from the end is a dash. -/
def dashed (l : Str) : Prop := l[l.length - 3]? = some 45

/-- The last line that is complete in the first bytes of some lines. -/
def LastLine (lines : List Str) (s line : Str) : Prop :=
  ∃ front back rest, lines = front ++ line :: back ∧ s = crlf (front ++ [line]) ++ rest ∧ ¬ [13, 10] <:+: rest

/-- Where the reads end within the reply, the last line that is complete has the dash, and the last
    line of the reply has not. -/
structure Sent.Told (x : Sent) : Prop where
  last : ¬ dashed x.reply.final
  front : ∀ front back, x.chunks = front ++ back → back ≠ [] →
    ∀ line, LastLine x.reply.lines front.flatten line → dashed line

theorem rfindStr_none {pat s : Str} (hpat : pat ≠ []) (h : ¬ pat <:+: s) : rfindStr pat s = none := by
  induction s with
  | nil => exact if_neg hpat
  | cons c s ih =>
    rw [List.infix_cons_iff, not_or] at h
    rw [rfindStr, ih h.2]
    exact if_neg h.1

/-- The last place of a pattern. -/
theorem rfindStr_last {pat : Str} (a : Str) {c : Byte} {t : Str} (h : pat <+: c :: t) (hnone : rfindStr pat t = none) :
    rfindStr pat (a ++ c :: t) = some a.length := by
  induction a with
  | nil =>
    rw [List.nil_append, rfindStr, hnone]
    exact if_pos h
  | cons d a ih => rw [List.cons_append, rfindStr, ih, List.length_cons]

theorem crlf_append (ls ls' : List Str) : crlf (ls ++ ls') = crlf ls ++ crlf ls' := List.flatMap_append

theorem crlf_concat (ls : List Str) (l : Str) : crlf (ls ++ [l]) = crlf ls ++ l ++ [13, 10] := by
  rw [crlf_append]
  simp [crlf]

theorem isComplete_none {out : Str} (h : ¬ [13, 10] <:+: out) : isComplete out = false := by
  rw [isComplete, rfindStr_none (by simp) h]
  exact Bool.and_false _

theorem lineStart_last (front : List Str) {l : Str} (hl : 10 ∉ l) :
    (match rfindStr [10] (crlf front ++ l) with
      | none => 0
      | some i => i + 1) = (crlf front).length := by
  have hnone : rfindStr [10] l = none := by
    refine rfindStr_none (by simp) fun h => hl ?_
    exact h.subset (List.mem_singleton.2 rfl)
  rcases List.eq_nil_or_concat front with rfl | ⟨front', l', rfl⟩
  · have hnil : crlf [] ++ l = l := rfl
    rw [hnil, hnone]
    rfl
  · rw [List.concat_eq_append]
    have hsplit : crlf (front' ++ [l']) ++ l = (crlf front' ++ l' ++ [13]) ++ 10 :: l := by
      rw [crlf_concat]
      simp
    rw [hsplit, rfindStr_last _ (by simp) hnone, crlf_concat]
    simp only [List.length_append, List.length_cons, List.length_nil]

/-- **The test** is about the third byte from the end of the last line that is complete. -/
theorem isComplete_last (front : List Str) {l rest : Str} (hlen : 4 ≤ l.length) (hline : 10 ∉ l)
    (hrest : ¬ [13, 10] <:+: rest) :
    isComplete (crlf (front ++ [l]) ++ rest) = true ↔ ¬ dashed l := by
  have hout : crlf (front ++ [l]) ++ rest = (crlf front ++ l) ++ 13 :: (10 :: rest) := by
    rw [crlf_concat]
    simp
  have hlast : rfindStr [13, 10] ((crlf front ++ l) ++ 13 :: (10 :: rest)) = some (crlf front ++ l).length := by
    refine rfindStr_last _ (by simp) (rfindStr_none (by simp) ?_)
    rw [List.infix_cons_iff, not_or]
    exact ⟨fun h => absurd (List.cons_prefix_cons.1 h).1 (by decide), hrest⟩
  have htake : ((crlf front ++ l) ++ 13 :: (10 :: rest)).take (crlf front ++ l).length =
      crlf front ++ l := List.take_left' rfl
  have hne : (crlf front ++ l).length ≠ 0 := by
    rw [List.length_append]
    omega
  have hbyte : ((crlf front ++ l) ++ 13 :: (10 :: rest))[(crlf front ++ l).length - 3]? =
      l[l.length - 3]? := by
    rw [List.length_append, Nat.add_sub_assoc (by omega), List.append_assoc,
      List.getElem?_append_right (by omega), Nat.add_sub_cancel_left, List.getElem?_append_left (by omega)]
  rw [isComplete, hout, hlast]
  dsimp only
  rw [if_neg hne, htake, lineStart_last front hline, hbyte]
  have hfour : 4 ≤ ((crlf front ++ l) ++ 13 :: (10 :: rest)).length := by
    simp only [List.length_append]
    omega
  have hthree : (crlf front).length + 3 ≤ (crlf front ++ l).length := by
    rw [List.length_append]
    omega
  simp only [hfour, hthree, decide_true, Bool.true_and, decide_eq_true_eq]
  exact Iff.rfl

/-- The first bytes of some lines have a last line that is complete, or no line end. -/
theorem lastLine_cases {lines : List Str} (hlines : ∀ l ∈ lines, 10 ∉ l) {s : Str} (h : s <+: crlf lines) :
    (∃ line, LastLine lines s line) ∨ ¬ [13, 10] <:+: s := by
  induction lines generalizing s with
  | nil =>
    obtain rfl := List.prefix_nil.1 h
    exact Or.inr (by simp)
  | cons l lines ih =>
    obtain ⟨hl, hlines⟩ := List.forall_mem_cons.1 hlines
    have hcons : ∀ ls : List Str, crlf (l :: ls) = (l ++ [13]) ++ 10 :: crlf ls := fun ls => by simp [crlf]
    have hfree : ∀ s, s <+: l ++ [13] → ¬ [13, 10] <:+: s := by
      intro s hs hend
      have hmem : 10 ∈ l ++ [13] := hs.subset (hend.subset (by simp))
      rcases List.mem_append.1 hmem with hmem | hmem
      · exact hl hmem
      · exact absurd (List.mem_singleton.1 hmem) (by decide)
    rw [hcons] at h
    rcases List.prefix_or_prefix_of_prefix h (List.prefix_append (l ++ [13]) _) with hs | ⟨q, rfl⟩
    · exact Or.inr (hfree s hs)
    rcases List.prefix_cons_iff.1 ((List.prefix_append_right_inj _).1 h) with rfl | ⟨q, rfl, hq⟩
    · exact Or.inr (hfree _ (by simp))
    left
    rcases ih hlines hq with ⟨line, front, back, rest, rfl, rfl, hrest⟩ | hnone
    · refine ⟨line, l :: front, back, rest, rfl, ?_, hrest⟩
      rw [List.cons_append, hcons]
      simp
    · refine ⟨l, [], lines, q, rfl, ?_, hnone⟩
      rw [List.nil_append, hcons]
      simp [crlf]

namespace Reply

theorem line_plain {r : Reply} {line : Str} (h : line ∈ r.lines) :
    4 ≤ line.length ∧ ∀ c ∈ line, c ≠ 13 ∧ c ≠ 10 ∧ c ≠ 0 := by
  have hline : ∀ (l : Line) (c : Byte), c ≠ 13 ∧ c ≠ 10 ∧ c ≠ 0 →
      4 ≤ (l.code ++ c :: l.text).length ∧ ∀ d ∈ l.code ++ c :: l.text, d ≠ 13 ∧ d ≠ 10 ∧ d ≠ 0 := by
    intro l c hc
    obtain ⟨hlen, hdigits⟩ := l.digits
    refine ⟨?_, fun d hd => ?_⟩
    · rw [List.length_append, List.length_cons]
      omega
    · rcases List.mem_append.1 hd with hd | hd
      · have hdigit := hdigits d hd
        refine ⟨?_, ?_, ?_⟩ <;> rintro rfl <;> cases hdigit
      · rcases List.mem_cons.1 hd with rfl | hd
        · exact hc
        · exact l.plain d hd
  rcases List.mem_append.1 h with h | h
  · obtain ⟨l, -, rfl⟩ := List.mem_map.1 h
    exact hline l 45 (by decide)
  · rw [List.mem_singleton.1 h]
    exact hline r.last 32 (by decide)

theorem bytes_eq (r : Reply) : r.bytes = r.text ++ [13, 10] := crlf_concat _ _

theorem bytes_plain (r : Reply) : 0 ∉ r.bytes := by
  intro h
  obtain ⟨line, hline, hmem⟩ := List.mem_flatMap.1 h
  rcases List.mem_append.1 hmem with hmem | hmem
  · exact ((line_plain hline).2 0 hmem).2.2 rfl
  · exact absurd hmem (by decide)

/-- The line end is what is taken off. -/
theorem bytes_trimmed (r : Reply) : r.bytes.rdropWhile (fun c => c = 13 || c = 10) = r.text := by
  obtain ⟨hlen, hplain⟩ := line_plain (List.mem_append_right r.continued (List.mem_singleton.2 (rfl : r.final = _)))
  obtain ⟨init, c, hfinal⟩ := (List.eq_nil_or_concat r.final).resolve_left fun h => by
    rw [h] at hlen
    exact absurd hlen (by decide)
  rw [List.concat_eq_append] at hfinal
  obtain ⟨h₁, h₂, -⟩ := hplain c (hfinal ▸ by simp)
  have hend : r.bytes = r.text ++ [13] ++ [10] := by
    rw [bytes_eq]
    simp
  rw [hend, List.rdropWhile_concat_pos _ _ _ (by decide), List.rdropWhile_concat_pos _ _ _ (by decide), text, hfinal,
    ← List.append_assoc]
  exact List.rdropWhile_concat_neg _ _ _ (by simp [h₁, h₂])

end Reply

/-! ## One reply -/

/-- Nothing is lost between what has been read and what has not. -/
theorem readLoop_bytes {arrived : List Str} (harrived : 0 ∉ arrived.flatten) (out : Str) :
    (readLoop arrived out).resp ++ (readLoop arrived out).unread.flatten = out ++ arrived.flatten := by
  induction arrived generalizing out with
  | nil => rfl
  | cons buf arrived ih =>
    rw [List.flatten_cons, List.mem_append, not_or] at harrived
    unfold readLoop
    rw [cStr_of_notMem harrived.1]
    dsimp only
    split_ifs
    · simp
    · rw [ih harrived.2]
      simp

/-- The loop reads all, and without waiting, when the test is met at the end and not before. -/
theorem readLoop_iff {arrived : List Str} (harrived : 0 ∉ arrived.flatten) (out : Str) :
    (readLoop arrived out).unread = [] ∧ (readLoop arrived out).waited = false ↔
      arrived ≠ [] ∧ isComplete (out ++ arrived.flatten) = true ∧
        ∀ front back, arrived = front ++ back → front ≠ [] → back ≠ [] →
          isComplete (out ++ front.flatten) = false := by
  induction arrived generalizing out with
  | nil => simp [readLoop]
  | cons buf arrived ih =>
    rw [List.flatten_cons, List.mem_append, not_or] at harrived
    unfold readLoop
    rw [cStr_of_notMem harrived.1]
    dsimp only
    split_ifs with hcomplete
    · constructor
      · rintro ⟨rfl, -⟩
        refine ⟨by simp, by simpa using hcomplete, fun front back hsplit hfront hback => ?_⟩
        obtain ⟨x, front, rfl⟩ := List.exists_cons_of_ne_nil hfront
        have hnil := (List.cons.inj hsplit).2
        exact absurd (List.append_eq_nil_iff.1 hnil.symm).2 hback
      · rintro ⟨-, -, hsplits⟩
        refine ⟨by_contra fun hne => ?_, rfl⟩
        have hfirst := hsplits [buf] arrived rfl (by simp) hne
        rw [List.flatten_singleton, hcomplete] at hfirst
        cases hfirst
    · rw [ih harrived.2, List.flatten_cons, List.append_assoc]
      constructor
      · rintro ⟨-, hall, hsplits⟩
        refine ⟨by simp, hall, fun front back hsplit hfront hback => ?_⟩
        obtain ⟨x, front, rfl⟩ := List.exists_cons_of_ne_nil hfront
        obtain ⟨rfl, htail⟩ := List.cons.inj hsplit
        rw [List.flatten_cons, ← List.append_assoc]
        by_cases hnil : front = []
        · subst hnil
          simpa using hcomplete
        · exact hsplits front back htail hnil hback
      · rintro ⟨-, hall, hsplits⟩
        refine ⟨?_, hall, fun front back hsplit hfront hback => ?_⟩
        · rintro rfl
          exact hcomplete (by simpa using hall)
        · have := hsplits (buf :: front) back (congrArg _ hsplit) (by simp) hback
          rwa [List.flatten_cons, ← List.append_assoc] at this

theorem isComplete_lastLine {r : Reply} {s line : Str} (h : LastLine r.lines s line) :
    isComplete s = true ↔ ¬ dashed line := by
  obtain ⟨front, back, rest, hsplit, rfl, hrest⟩ := h
  obtain ⟨hlen, hplain⟩ := Reply.line_plain (hsplit ▸ by simp : line ∈ r.lines)
  exact isComplete_last front hlen (fun hmem => (hplain 10 hmem).2.1 rfl) hrest

theorem Sent.plain (x : Sent) : 0 ∉ x.chunks.flatten := x.joined ▸ x.reply.bytes_plain

/-- As nothing is lost, the bytes that are read are the reply when all are read. -/
theorem framed_loop (x : Sent) :
    x.Framed ↔ (readLoop x.chunks []).unread = [] ∧ (readLoop x.chunks []).waited = false := by
  have hbytes := readLoop_bytes x.plain []
  unfold Sent.Framed readResponse
  constructor
  · intro h
    exact ⟨congrArg Read.unread h, congrArg Read.waited h⟩
  · rintro ⟨hunread, hwaited⟩
    rw [hunread, List.flatten_nil, List.append_nil, List.nil_append, x.joined] at hbytes
    rw [Read.mk.injEq]
    exact ⟨hbytes ▸ x.reply.bytes_trimmed, hunread, hwaited⟩

/-- **One reply** is read as a whole exactly when the dashes tell where it ends. -/
theorem framed_iff (x : Sent) : x.Framed ↔ x.Told := by
  have hlines : ∀ line ∈ x.reply.lines, 10 ∉ line := fun line hline hmem =>
    ((Reply.line_plain hline).2 10 hmem).2.1 rfl
  have hall : LastLine x.reply.lines x.chunks.flatten x.reply.final := by
    refine ⟨x.reply.continued, [], [], rfl, ?_, by simp⟩
    rw [List.append_nil, x.joined]
    rfl
  rw [framed_loop, readLoop_iff x.plain]
  simp only [List.nil_append]
  constructor
  · rintro ⟨-, hend, hsplits⟩
    refine ⟨(isComplete_lastLine hall).1 hend, fun front back hsplit hback line hline => ?_⟩
    have hfront : front ≠ [] := by
      rintro rfl
      obtain ⟨lines, back', rest, -, hs, -⟩ := hline
      have hnil := (List.append_eq_nil_iff.1 hs.symm).1
      rw [crlf_concat] at hnil
      simp at hnil
    have hnot := hsplits front back hsplit hfront hback
    by_contra hdash
    rw [(isComplete_lastLine hline).2 hdash] at hnot
    cases hnot
  · rintro ⟨hend, hsplits⟩
    refine ⟨fun hnil => ?_, (isComplete_lastLine hall).2 hend, fun front back hsplit _ hback => ?_⟩
    · have hjoined := x.joined
      rw [hnil, Reply.bytes_eq] at hjoined
      simp at hjoined
    · have hprefix : front.flatten <+: crlf x.reply.lines := by
        have hjoined : x.chunks.flatten = crlf x.reply.lines := x.joined
        rw [← hjoined, hsplit, List.flatten_append]
        exact List.prefix_append _ _
      rcases lastLine_cases hlines hprefix with ⟨line, hline⟩ | hnone
      · have hdash := hsplits front back hsplit hback line hline
        rw [← Bool.not_eq_true, isComplete_lastLine hline]
        exact not_not.2 hdash
      · exact isComplete_none hnone

/-! ## Every dialogue -/

theorem converse_iff (server : ℕ → Sent) (script : List Exchange) (n : ℕ) :
    (∀ r ∈ converse server script n [], r.Matched) ↔ ∀ r ∈ converse server script n [], r.reply.Told := by
  induction script generalizing n with
  | nil => simp [converse]
  | cons x script ih =>
    unfold converse
    dsimp only
    rw [List.nil_append, List.forall_mem_cons, List.forall_mem_cons, ← framed_iff]
    refine and_congr_right fun hframed => ?_
    have hunread : (readResponse (server n).chunks).unread = [] := congrArg Read.unread hframed
    split_ifs
    · rw [hunread]
      exact ih (n + 1)
    · simp

/-- **Replies and commands**: a reply is read as a whole, no more and without waiting, exactly when the
    dashes tell where it ends; and in every dialogue each command gets its own reply exactly when
    this is so of each reply that is sent. -/
theorem dialogue_framed (config : EmailConfig) (account : EmailAccount) (subject body dateStr : Str)
    (connected handshake : Bool) (server : ℕ → Sent) :
    let rounds := (sendTo config account subject body dateStr connected handshake server).2
    (∀ x : Sent, x.Framed ↔ x.Told) ∧ ((∀ r ∈ rounds, r.Matched) ↔ ∀ r ∈ rounds, r.reply.Told) := by
  refine ⟨framed_iff, ?_⟩
  unfold sendTo
  dsimp only
  split_ifs
  · simp
  · simp
  · simp
  · exact converse_iff server _ 0

/-- The lines `250-abc` and `250 ok`, which are read one by one. -/
def twoLines : Sent where
  reply :=
    { front := [⟨[50, 53, 48], [97, 98, 99], ⟨rfl, by simp [isdigit]⟩, by simp⟩]
      last := ⟨[50, 53, 48], [111, 107], ⟨rfl, by simp [isdigit]⟩, by simp⟩ }
  chunks := [[50, 53, 48, 45, 97, 98, 99, 13, 10], [50, 53, 48, 32, 111, 107, 13, 10]]
  joined := by decide
  sizes := by decide

/-- The first line is taken for the reply. -/
theorem first_line_taken : ¬ ∀ x : Sent, x.Framed := by
  intro h
  have hunread := congrArg Read.unread (h twoLines)
  revert hunread
  decide

end NarMusic.Smtp
