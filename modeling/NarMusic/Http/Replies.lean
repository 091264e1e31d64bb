/-
  Responses on the wire, and a client that reads them.

  The client looks for the blank line behind the header block, reads the status line and the fields,
  and takes as many bytes behind the blank line as `Content-Length` announces.  It reads a response
  whose texts have no line breaks as it was written (`Framed.writes`); such are the responses that
  the server builds: `json`, `error`, `file`, `downloadFile` and `streamFile`.
-/
import Mathlib.Data.List.DropRight
import NarMusic.Http.Canonical
import NarMusic.Http.Response
import NarMusic.Lib.Framing

namespace NarMusic

open Cxx

/-- What a client has of one response. -/
structure Reply where
  status : ℕ
  statusText : Str
  fields : List (Str × Str)
  body : Str
  deriving DecidableEq

def stripBlanks (s : Str) : Str := (s.dropWhile (· = 32)).rdropWhile (· = 32)

/-- A header with no blanks around its value. -/
structure FramedHeader (h : Str × Str) : Prop extends PlainHeader h where
  value_trimmed : stripBlanks h.2 = h.2

/-- Another value behind the same name. -/
theorem FramedHeader.value {name v v' : Str} (h : FramedHeader (name, v)) (hplain : Plain v')
    (htrim : stripBlanks v' = v') : FramedHeader (name, v') where
  name_ne := h.name_ne
  name_colon := h.name_colon
  name_plain := h.name_plain
  value_plain := hplain
  value_trimmed := htrim

theorem plain_iff {s : Str} : (s.contains 13 = false ∧ s.contains 10 = false) ↔ Plain s := by simp [Plain]

theorem framedHeader_iff {h : Str × Str} : (((h.1 ≠ [] ∧ h.1.contains 58 = false) ∧ Plain h.1 ∧ Plain h.2) ∧
    stripBlanks h.2 = h.2) ↔ FramedHeader h := by
  have hcolon : h.1.contains 58 = false ↔ 58 ∉ h.1 := by simp
  rw [hcolon]
  constructor
  · rintro ⟨⟨⟨hne, hcolon⟩, hname, hvalue⟩, hstrip⟩
    exact ⟨⟨hne, hcolon, hname, hvalue⟩, hstrip⟩
  · rintro ⟨⟨hne, hcolon, hname, hvalue⟩, hstrip⟩
    exact ⟨⟨⟨hne, hcolon⟩, hname, hvalue⟩, hstrip⟩

instance (s : Str) : Decidable (Plain s) := decidable_of_iff _ plain_iff

instance (h : Str × Str) : Decidable (FramedHeader h) := decidable_of_iff _ framedHeader_iff

namespace Reply

/-- `HTTP/1.1`, the number and the text of a status line. -/
def readStatusLine (line : Str) : Option (ℕ × Str) :=
  if lit "HTTP/1.1 " <+: line then
    let rest := line.drop 9
    (find [32] rest).bind fun space =>
      if (rest.take space).all isdigit then some (digitsVal (rest.take space), rest.drop (space + 1)) else none
  else none

def readField (line : Str) : Option (Str × Str) :=
  (find [58] line).map fun colonPos => (line.take colonPos, stripBlanks (line.drop (colonPos + 1)))

/-- The first `Content-Length`, in whatever case it is written. -/
def announced (fields : List (Str × Str)) : Option ℕ :=
  (fields.find? fun f => f.1.map tolower = lit "content-length").bind fun f =>
    if f.2.all isdigit then some (digitsVal f.2) else none

/-- The header block up to the blank line: the reply without its body, and the length of that. -/
def readHead (head : Str) : Option (Reply × ℕ) :=
  let lines := (getlines 10 head).map Request.popCR
  (readStatusLine (lines.headD [])).bind fun line =>
    (lines.tail.mapM readField).bind fun fields =>
      (announced fields).map fun n => (⟨line.1, line.2, fields, []⟩, n)

/-- The reply at the front of the bytes, when all of it is there. -/
def read (q : Str) : Option (Reply × Str) :=
  (find blankLine q).bind fun headEnd =>
    (readHead (q.take headEnd)).bind fun head =>
      if (q.drop (headEnd + 4)).length < head.2 then none
      else some ({ head.1 with body := (q.drop (headEnd + 4)).take head.2 }, (q.drop (headEnd + 4)).drop head.2)

theorem read_eq_some {q rest : Str} {reply : Reply} : read q = some (reply, rest) ↔
    ∃ headEnd head, find blankLine q = some headEnd ∧ readHead (q.take headEnd) = some head ∧
      head.2 ≤ (q.drop (headEnd + 4)).length ∧
      reply = { head.1 with body := (q.drop (headEnd + 4)).take head.2 } ∧
      rest = (q.drop (headEnd + 4)).drop head.2 := by
  constructor
  · intro h
    obtain ⟨headEnd, hfind, h⟩ := Option.bind_eq_some_iff.1 h
    obtain ⟨head, hhead, h⟩ := Option.bind_eq_some_iff.1 h
    split_ifs at h with hshort
    obtain ⟨hreply, hrest⟩ := Prod.mk.inj (Option.some.inj h)
    exact ⟨headEnd, head, hfind, hhead, not_lt.1 hshort, hreply.symm, hrest.symm⟩
  · rintro ⟨headEnd, head, hfind, hhead, hle, rfl, rfl⟩
    refine Option.bind_eq_some_iff.2 ⟨headEnd, hfind, Option.bind_eq_some_iff.2 ⟨head, hhead, ?_⟩⟩
    rw [if_neg (not_lt.2 hle)]

theorem read_shorter {q rest : Str} {reply : Reply} (h : read q = some (reply, rest)) :
    rest.length < q.length := by
  obtain ⟨headEnd, head, hfind, -, -, -, rfl⟩ := read_eq_some.1 h
  have hle := find_le hfind
  rw [blankLine_length] at hle
  simp only [List.length_drop]
  omega

theorem read_stable {q rest : Str} {reply : Reply} (t : Str) (h : read q = some (reply, rest)) :
    read (q ++ t) = some (reply, rest ++ t) := by
  obtain ⟨headEnd, head, hfind, hhead, hle, rfl, rfl⟩ := read_eq_some.1 h
  have hfit := find_le hfind
  rw [blankLine_length] at hfit
  have hdrop : (q ++ t).drop (headEnd + 4) = q.drop (headEnd + 4) ++ t := List.drop_append_of_le_length hfit
  refine read_eq_some.2 ⟨headEnd, head, find_append hfind t, ?_, ?_, ?_, ?_⟩
  · rwa [List.take_append_of_le_length (by omega)]
  · rw [hdrop, List.length_append]
    omega
  · rw [hdrop, List.take_append_of_le_length hle]
  · rw [hdrop, List.drop_append_of_le_length hle]

/-- The client. -/
def reader : FrameReader Byte Reply where
  read := read
  shorter := read_shorter
  stable := read_stable

end Reply

/-! ## What is read back -/

theorem popCR_crLines {lines : List Str} (h : ∀ line ∈ lines, Plain line) :
    (crLines lines).map Request.popCR = lines := by
  induction lines using crLines.induct with
  | case1 => rfl
  | case2 line => rw [crLines, List.map_singleton, Request.popCR_plain (h line (List.mem_singleton_self _))]
  | case3 line line' lines ih =>
    rw [crLines, List.map_cons, Request.popCR_append, ih fun l hl => h l (List.mem_cons_of_mem _ hl)]

theorem stripBlanks_blank {s : Str} (h : stripBlanks s = s) : stripBlanks (32 :: s) = s := by
  rw [stripBlanks, List.dropWhile_cons_of_pos (by simp)]
  exact h

/-- A text with something else at both ends. -/
theorem stripBlanks_ends {s t : Str} {a b : Byte} (hs : s = a :: t) (hlast : s.getLast? = some b)
    (ha : a ≠ 32) (hb : b ≠ 32) : stripBlanks s = s := by
  have hdrop : s.dropWhile (· = 32) = s := by rw [hs, List.dropWhile_cons_of_neg (by simpa using ha)]
  rw [stripBlanks, hdrop, List.rdropWhile_eq_self_iff]
  intro hne
  rw [List.getLast?_eq_some_getLast hne] at hlast
  rw [Option.some.inj hlast]
  simpa using hb

theorem readField_headerLine {h : Str × Str} (hh : FramedHeader h) :
    Reply.readField (headerLine h) = some h := by
  have hfind : find [58] (headerLine h) = some h.1.length := find_byte hh.name_colon _
  rw [Reply.readField, hfind, Option.map_some, headerLine, List.take_left' rfl, ← List.drop_drop,
    List.drop_left' rfl, List.drop_one, List.tail_cons, stripBlanks_blank hh.value_trimmed]

theorem mapM_readField {hs : List (Str × Str)} (hh : ∀ h ∈ hs, FramedHeader h) :
    (hs.map headerLine).mapM Reply.readField = some hs := by
  induction hs with
  | nil => rfl
  | cons h hs ih =>
    obtain ⟨hfirst, hrest⟩ := List.forall_mem_cons.1 hh
    rw [List.map_cons, List.mapM_cons, readField_headerLine hfirst, ih hrest]
    rfl

/-! ## The text of a response -/

namespace Response

/-- A response whose texts end where their lines do. -/
structure Framed (r : Response) : Prop where
  status : 0 ≤ r.status
  statusText : Plain r.statusText
  header : ∀ h ∈ r.headers.entries, FramedHeader h
  length : ∀ h ∈ r.headers.entries, h.1.map tolower ≠ lit "content-length"

def statusLine (r : Response) : Str := lit "HTTP/1.1 " ++ decInt r.status ++ lit " " ++ r.statusText

/-- The fields of a response with a body of this length. -/
def fields (r : Response) (size : ℕ) : List (Str × Str) :=
  r.headers.entries ++ ((contentLengthKey, dec size) ::
    if r.headers.get (lit "Connection") = none then [(lit "Connection", lit "close")] else [])

/-- What a client should have of a response and its body. -/
def reply (r : Response) (body : Str) : Reply := ⟨r.status.toNat, r.statusText, r.fields body.length, body⟩

/-- A header that is framed and is not `Content-Length`. -/
def HeaderOk (h : Str × Str) : Prop := FramedHeader h ∧ h.1.map tolower ≠ lit "content-length"

instance (h : Str × Str) : Decidable (HeaderOk h) := instDecidableAnd

/-- The headers that are set to fixed values, and two names whose values are made. -/
def fixedHeaders : List (Str × Str) :=
  [(lit "Connection", lit "close"), (lit "Connection", lit "keep-alive"),
    (lit "Content-Type", lit "application/json"), (lit "Content-Type", lit "application/octet-stream"),
    (lit "Content-Type", lit "audio/mp4"), (lit "Access-Control-Allow-Origin", lit "*"),
    (lit "Access-Control-Expose-Headers", lit "Content-Disposition"), (lit "Accept-Ranges", lit "bytes"),
    (lit "Cache-Control", lit "max-age=3600"), (lit "Cache-Control", lit "no-cache, no-store, must-revalidate"),
    (lit "Content-Disposition", []), (lit "Content-Range", [])]

theorem fixedHeaders_ok : ∀ h ∈ fixedHeaders, HeaderOk h := by decide +kernel

theorem fixedTexts : (contentLengthKey.map tolower = lit "content-length" ∧ FramedHeader (contentLengthKey, [])) ∧
    (Plain (lit "HTTP/1.1 ") ∧ (lit "HTTP/1.1 ").length = 9 ∧ Plain (lit " ")) ∧
    Plain (lit "OK") ∧ Plain (lit "Partial Content") := by decide +kernel

theorem lower_contentLength : contentLengthKey.map tolower = lit "content-length" := fixedTexts.1.1

section
variable {r : Response} {body : Str}

theorem Framed.get_length (h : r.Framed) : r.headers.get contentLengthKey = none := by
  cases hget : r.headers.get contentLengthKey with
  | none => rfl
  | some v => exact absurd lower_contentLength (h.length _ (OrdMap.get_eq_some_iff.1 hget))

theorem Framed.serializeHeaders_eq (h : r.Framed) (hlen : (body.length : ℤ) = r.contentLen) :
    r.serializeHeaders ++ body =
      r.statusLine ++ (lineBlock ((r.fields body.length).map headerLine) ++ (blankLine ++ body)) := by
  have hconnection : r.connectionLine =
      (if r.headers.get (lit "Connection") = none then [(lit "Connection", lit "close")] else []).flatMap
        fun h => headerLine h ++ crlf := by
    unfold connectionLine
    split_ifs <;> rfl
  have hlines : r.serializeHeaders =
      r.statusLine ++ (crlf ++ (r.fields body.length).flatMap (fun h => headerLine h ++ crlf)) ++ crlf := by
    rw [serializeHeaders, lengthLine, if_pos h.get_length, ← hlen, hconnection, fields, List.flatMap_append,
      List.flatMap_cons, headLines, statusLine]
    simp only [headerLine, List.append_assoc, decInt, List.cons_append]
    rfl
  have hblock := flatMap_crlf ((r.fields body.length).map headerLine)
  rw [List.flatMap_map] at hblock
  rw [hlines, hblock]
  simp only [List.append_assoc, blankLine, crlf, List.cons_append, List.nil_append]

theorem framed_length (size : ℕ) : FramedHeader (contentLengthKey, dec size) := by
  have hdigits := isdigit_dec size
  have h32 : 32 ∉ dec size := notMem_digits rfl hdigits
  refine fixedTexts.1.2.value ⟨notMem_digits rfl hdigits, notMem_digits rfl hdigits⟩ ?_
  obtain ⟨a, t, hcons⟩ := List.exists_cons_of_ne_nil (dec_ne_nil size)
  refine stripBlanks_ends hcons (List.getLast?_eq_some_getLast (dec_ne_nil size)) ?_ ?_
  · intro ha
    exact h32 (ha ▸ hcons ▸ List.mem_cons_self)
  · intro hb
    exact h32 (hb ▸ List.getLast_mem _)

theorem Framed.header_fields (h : r.Framed) (size : ℕ) : ∀ f ∈ r.fields size, FramedHeader f := by
  have hclose := (fixedHeaders_ok (lit "Connection", lit "close") (by simp [fixedHeaders])).1
  intro f hf
  rcases List.mem_append.1 hf with hf | hf
  · exact h.header f hf
  · rcases List.mem_cons.1 hf with rfl | hf
    · exact framed_length size
    · split_ifs at hf
      · obtain rfl := List.mem_singleton.1 hf
        exact hclose
      · cases hf

theorem Framed.announced_fields (h : r.Framed) (size : ℕ) : Reply.announced (r.fields size) = some size := by
  have hnone : r.headers.entries.find? (fun f => f.1.map tolower = lit "content-length") = none := by
    rw [List.find?_eq_none]
    intro f hf
    simpa using h.length f hf
  have hall : (dec size).all isdigit = true := List.all_eq_true.2 (isdigit_dec size)
  rw [Reply.announced, fields, List.find?_append, hnone, Option.none_or,
    List.find?_cons_of_pos (by simpa using lower_contentLength), Option.bind_some, if_pos hall, digitsVal_dec]

theorem Framed.readStatusLine (h : r.Framed) :
    Reply.readStatusLine r.statusLine = some (r.status.toNat, r.statusText) := by
  obtain ⟨n, hn⟩ := Int.eq_ofNat_of_zero_le h.status
  have hline : r.statusLine = lit "HTTP/1.1 " ++ (dec n ++ 32 :: r.statusText) := by
    rw [statusLine, hn]
    simp only [List.append_assoc]
    rfl
  have hspace : find [32] (dec n ++ 32 :: r.statusText) = some (dec n).length :=
    find_byte (notMem_digits rfl (isdigit_dec n)) _
  have hdrop : (lit "HTTP/1.1 " ++ (dec n ++ 32 :: r.statusText)).drop 9 = dec n ++ 32 :: r.statusText :=
    List.drop_left' fixedTexts.2.1.2.1
  have hall : (dec n).all isdigit = true := List.all_eq_true.2 (isdigit_dec n)
  rw [Reply.readStatusLine, hline, if_pos (List.prefix_append _ _)]
  dsimp only
  rw [hdrop, hspace, Option.bind_some, List.take_left' rfl, if_pos hall, digitsVal_dec, ← List.drop_drop,
    List.drop_left' rfl, hn]
  rfl

theorem Framed.statusLine_plain (h : r.Framed) : Plain r.statusLine ∧ r.statusLine ≠ [] := by
  have hdec (c : Byte) (hc : c = 13 ∨ c = 10) : c ∉ decInt r.status := by
    intro hmem
    rcases mem_decInt hmem with h45 | hdigit
    · rcases hc with rfl | rfl <;> cases h45
    · rcases hc with rfl | rfl <;> cases hdigit
  obtain ⟨⟨hv13, hv10⟩, hnine, hb13, hb10⟩ := fixedTexts.2.1
  obtain ⟨ht13, ht10⟩ := h.statusText
  refine ⟨⟨?_, ?_⟩, ?_⟩
  · simp [statusLine, hv13, hb13, ht13, hdec]
  · simp [statusLine, hv10, hb10, ht10, hdec]
  · intro hnil
    have hlen := congrArg List.length hnil
    simp [statusLine, hnine] at hlen

/-- **A response is read as it was written.** -/
theorem Framed.writes (h : r.Framed) (hlen : (body.length : ℤ) = r.contentLen) :
    Reply.reader.Writes (r.serializeHeaders ++ body) (r.reply body) := by
  have hlines : ∀ line ∈ (r.fields body.length).map headerLine, Plain line ∧ line ≠ [] :=
    headerLine_block fun f hf => (h.header_fields _ f hf).toPlainHeader
  obtain ⟨hplain, hne⟩ := h.statusLine_plain
  have hall : ∀ line ∈ r.statusLine :: (r.fields body.length).map headerLine, Plain line ∧ line ≠ [] :=
    List.forall_mem_cons.2 ⟨⟨hplain, hne⟩, hlines⟩
  have hfind := find_block_blank hplain.1 hlines body
  have hhead : Reply.readHead (r.statusLine ++ lineBlock ((r.fields body.length).map headerLine)) =
      some (⟨r.status.toNat, r.statusText, r.fields body.length, []⟩, body.length) := by
    rw [Reply.readHead, getlines_lineBlock hall, popCR_crLines fun line hline => (hall line hline).1,
      List.headD_cons, List.tail_cons, h.readStatusLine, Option.bind_some,
      mapM_readField (h.header_fields _), Option.bind_some, h.announced_fields, Option.map_some]
  have hbody : (r.statusLine ++ (lineBlock ((r.fields body.length).map headerLine) ++ (blankLine ++ body))).drop
      ((r.statusLine ++ lineBlock ((r.fields body.length).map headerLine)).length + 4) = body := by
    rw [← List.drop_drop, ← List.append_assoc, List.drop_left' rfl]
    rfl
  rw [FrameReader.Writes, h.serializeHeaders_eq hlen]
  refine Reply.read_eq_some.2
    ⟨_, (⟨r.status.toNat, r.statusText, r.fields body.length, []⟩, body.length), hfind, ?_, ?_, ?_, ?_⟩
  · rw [← List.append_assoc, List.take_left' rfl]
    exact hhead
  · rw [hbody]
  · rw [hbody, List.take_length]
    rfl
  · rw [hbody, List.drop_length]

end

/-! ## The responses of the server -/

theorem framed_of {r : Response} {hs : List (Str × Str)} (hstatus : 0 ≤ r.status) (htext : Plain r.statusText)
    (hheaders : r.headers = .ofList hs) (hh : ∀ h ∈ hs, HeaderOk h) : r.Framed where
  status := hstatus
  statusText := htext
  header h hmem := (hh h (OrdMap.mem_ofList (hheaders ▸ hmem))).1
  length h hmem := (hh h (OrdMap.mem_ofList (hheaders ▸ hmem))).2

theorem framed_json {status : ℤ} {statusText : Str} {body : Json} {r : Response} (hstatus : 0 ≤ status)
    (htext : Plain statusText) (h : json status statusText body = .ok r) : r.Framed := by
  unfold json at h
  cases hdump : body.dump with
  | error e =>
    rw [hdump] at h
    cases h
  | ok text =>
    rw [hdump] at h
    cases h
    refine framed_of hstatus htext rfl fun h hmem => fixedHeaders_ok h ?_
    rcases List.mem_pair.1 hmem with rfl | rfl <;> simp [fixedHeaders]

theorem framed_error {status : ℤ} {statusText code msg : Str} {r : Response} (hstatus : 0 ≤ status)
    (htext : Plain statusText) (h : error status statusText code msg = .ok r) : r.Framed :=
  framed_json hstatus htext h

theorem ok_framed : (0 : ℤ) ≤ 200 ∧ Plain (lit "OK") := ⟨by omega, fixedTexts.2.2.1⟩

theorem framed_file (content : Str) {contentType : Str} (h : HeaderOk (lit "Content-Type", contentType)) :
    (file content contentType).Framed := by
  refine framed_of ok_framed.1 ok_framed.2 rfl ?_
  rw [List.forall_mem_cons, List.forall_mem_singleton]
  exact ⟨h, fixedHeaders_ok _ (by simp [fixedHeaders])⟩

theorem Framed.setHeader {r : Response} (hr : r.Framed) {key value : Str} (h : HeaderOk (key, value)) :
    (r.setHeader key value).Framed where
  status := hr.status
  statusText := hr.statusText
  header f hf := by
    rcases OrdMap.mem_insert hf with rfl | hf
    · exact h.1
    · exact hr.header f hf
  length f hf := by
    rcases OrdMap.mem_insert hf with rfl | hf
    · exact h.2
    · exact hr.length f hf

/-- Escaped texts have no line breaks, and do not begin or end with a blank. -/
theorem headerOk_disposition (displayName : Str) :
    HeaderOk (lit "Content-Disposition", lit "attachment; filename=\"" ++ urlEncodeUtf8 displayName ++
      lit "\"; filename*=UTF-8''" ++ urlEncodeUtf8 displayName) := by
  have hname := fixedHeaders_ok (lit "Content-Disposition", []) (by simp [fixedHeaders])
  have hfixed : Plain (lit "attachment; filename=\"") ∧ Plain (lit "\"; filename*=UTF-8''") ∧
      (lit "\"; filename*=UTF-8''").getLast? = some 39 := by decide +kernel
  obtain ⟨⟨hl13, hl10⟩, ⟨hr13, hr10⟩, hlast⟩ := hfixed
  have hfree (c : Byte) (hc : isUnreserved c = false ∧ c ≠ 37) : c ∉ urlEncodeUtf8 displayName := by
    intro hmem
    rcases mem_urlEncode hmem with hu | h37
    · rw [hc.1] at hu
      cases hu
    · exact hc.2 h37
  have hplain := hfree 13 (by decide)
  have hplain' := hfree 10 (by decide)
  have hblank := hfree 32 (by decide)
  refine ⟨hname.1.value ⟨?_, ?_⟩ ?_, hname.2⟩
  · simp [hl13, hr13, hplain]
  · simp [hl10, hr10, hplain']
  · obtain ⟨b, hb, hb32⟩ : ∃ b, (lit "attachment; filename=\"" ++ urlEncodeUtf8 displayName ++
        lit "\"; filename*=UTF-8''" ++ urlEncodeUtf8 displayName).getLast? = some b ∧ b ≠ 32 := by
      rw [List.getLast?_append, List.getLast?_append, hlast]
      cases hget : (urlEncodeUtf8 displayName).getLast? with
      | none => exact ⟨39, rfl, by decide⟩
      | some b =>
        refine ⟨b, rfl, ?_⟩
        rintro rfl
        exact hblank (List.mem_of_getLast? hget)
    exact stripBlanks_ends (a := 97) rfl hb (by decide) hb32

theorem framed_downloadFile (info : FileStreamInfo) (displayName : Str) :
    (downloadFile info displayName).Framed := by
  refine framed_of ok_framed.1 ok_framed.2 rfl ?_
  simp only [List.forall_mem_cons, List.not_mem_nil, IsEmpty.forall_iff, implies_true, and_true]
  have hfixed := fun h hmem => fixedHeaders_ok h hmem
  refine ⟨hfixed _ ?_, hfixed _ ?_, hfixed _ ?_, hfixed _ ?_, hfixed _ ?_, headerOk_disposition displayName⟩
  all_goals simp [fixedHeaders]

theorem headerOk_range (info : FileStreamInfo) : HeaderOk (lit "Content-Range", contentRange info) := by
  have hname := fixedHeaders_ok (lit "Content-Range", []) (by simp [fixedHeaders])
  have hfixed : Plain (lit "bytes ") ∧ Plain (lit "-") ∧ Plain (lit "/") := by decide +kernel
  obtain ⟨⟨hb13, hb10⟩, ⟨hm13, hm10⟩, hs13, hs10⟩ := hfixed
  have hfree (n : ℤ) (c : Byte) (hc : c ≠ 45 ∧ isdigit c = false) : c ∉ decInt n := by
    intro hmem
    rcases mem_decInt hmem with h45 | hdigit
    · exact hc.1 h45
    · rw [hc.2] at hdigit
      cases hdigit
  have h13 (n : ℤ) := hfree n 13 (by decide)
  have h10 (n : ℤ) := hfree n 10 (by decide)
  refine ⟨hname.1.value ⟨?_, ?_⟩ ?_, hname.2⟩
  · simp [contentRange, hb13, hm13, hs13, h13]
  · simp [contentRange, hb10, hm10, hs10, h10]
  · have hne : decInt info.fileSize ≠ [] := by
      cases info.fileSize with
      | ofNat n => exact dec_ne_nil n
      | negSucc n => exact List.cons_ne_nil _ _
    have hlast : (contentRange info).getLast? = some ((decInt info.fileSize).getLast hne) := by
      rw [contentRange, List.getLast?_append, List.getLast?_eq_some_getLast hne, Option.some_or]
    refine stripBlanks_ends (a := 98) rfl hlast (by decide) ?_
    intro h32
    exact hfree info.fileSize 32 (by decide) (h32 ▸ List.getLast_mem hne)

theorem framed_streamFile (info : FileStreamInfo) : (streamFile info).Framed := by
  refine framed_of ?_ ?_ rfl ?_
  · unfold streamFile
    dsimp only
    split_ifs <;> omega
  · unfold streamFile
    dsimp only
    split_ifs
    · exact fixedTexts.2.2.2
    · exact fixedTexts.2.2.1
  · intro h hmem
    rcases List.mem_append.1 hmem with hrange | hmem
    · split_ifs at hrange
      · obtain rfl := List.mem_singleton.1 hrange
        exact headerOk_range info
      · cases hrange
    · refine fixedHeaders_ok h ?_
      simp only [List.mem_cons, List.not_mem_nil, or_false] at hmem
      rcases hmem with rfl | rfl | rfl | rfl | rfl <;> simp [fixedHeaders]

end Response

end NarMusic
